import Mathlib.Tactic

/-!
Run-length coding by counted packets.

A packet begins with a count. One of at most `lim` is followed by that many symbols, a *dump*; a
larger one by a single symbol, a *run* of the count less `lim`. Symbols and counts are both numbers
of the same stream, and a run has at most `max` symbols, so that counts are at most `lim + max`.

* `read_encode`: a reader that knows how many symbols to expect finds exactly the symbols of the
  packets and stops behind them;
* `encode_le`: counts stay in the range of the symbols.
-/

namespace Mdb

namespace RunLength

variable {lim max : ℕ}

/-- A packet, with what its count can say about it. -/
inductive Packet (lim max : ℕ) where
  | dump (data : List ℕ) (pos : 1 ≤ data.length) (le : data.length ≤ lim)
  | run (length symbol : ℕ) (pos : 1 ≤ length) (le : length ≤ max)

namespace Packet

/-- The symbols of a packet. -/
def expand : Packet lim max → List ℕ
  | dump data _ _ => data
  | run length symbol _ _ => List.replicate length symbol

/-- A packet in the stream. -/
def encode : Packet lim max → List ℕ
  | dump data _ _ => data.length :: data
  | run length symbol _ _ => [length + lim, symbol]

lemma expand_length_pos (p : Packet lim max) : 1 ≤ p.expand.length := by
  cases p with
  | dump data pos le => exact pos
  | run length symbol pos le => rwa [expand, List.length_replicate]

end Packet

/-- The symbols of a sequence of packets. -/
def expand (ps : List (Packet lim max)) : List ℕ := ps.flatMap Packet.expand

/-- A sequence of packets in the stream. -/
def encode (ps : List (Packet lim max)) : List ℕ := ps.flatMap Packet.encode

@[simp] lemma expand_nil : expand ([] : List (Packet lim max)) = [] := rfl

@[simp] lemma expand_cons (p : Packet lim max) (ps : List (Packet lim max)) :
    expand (p :: ps) = p.expand ++ expand ps := rfl

@[simp] lemma expand_append (ps qs : List (Packet lim max)) :
    expand (ps ++ qs) = expand ps ++ expand qs := List.flatMap_append

@[simp] lemma encode_nil : encode ([] : List (Packet lim max)) = [] := rfl

@[simp] lemma encode_cons (p : Packet lim max) (ps : List (Packet lim max)) :
    encode (p :: ps) = p.encode ++ encode ps := rfl

@[simp] lemma encode_append (ps qs : List (Packet lim max)) :
    encode (ps ++ qs) = encode ps ++ encode qs := List.flatMap_append

/-! ### The reader -/

/-- The packet that a stream begins with, and the rest of the stream. -/
def readPacket (lim max : ℕ) : List ℕ → Option (Packet lim max × List ℕ)
  | [] => none
  | count :: rest =>
      if hdump : 1 ≤ count ∧ count ≤ lim ∧ count ≤ rest.length then
        have hlen : (rest.take count).length = count := List.length_take_of_le hdump.2.2
        some (.dump (rest.take count) (by omega) (by omega), rest.drop count)
      else if hrun : lim < count ∧ count ≤ lim + max then
        rest.head?.map fun symbol =>
          (.run (count - lim) symbol (by omega) (by omega), rest.tail)
      else none

/-- `n` symbols, in packets that end with the last of them, and the rest of the stream. -/
def read (lim max : ℕ) : ℕ → List ℕ → Option (List ℕ × List ℕ)
  | 0, bytes => some ([], bytes)
  | n + 1, bytes =>
      (readPacket lim max bytes).bind fun (p, rest) =>
        if p.expand.length ≤ n + 1 then
          (read lim max (n + 1 - p.expand.length) rest).map fun (data, rest) =>
            (p.expand ++ data, rest)
        else none
  termination_by n => n
  decreasing_by
    have := p.expand_length_pos
    omega

lemma readPacket_encode (p : Packet lim max) (rest : List ℕ) :
    readPacket lim max (p.encode ++ rest) = some (p, rest) := by
  cases p with
  | dump data pos le =>
      rw [Packet.encode, List.cons_append, readPacket,
        dif_pos ⟨pos, le, by rw [List.length_append]; omega⟩]
      simp
  | run length symbol pos le =>
      rw [Packet.encode, List.cons_append, readPacket, dif_neg (by omega), dif_pos (by omega)]
      simp

/-- **The reader finds the symbols of the packets**, and stops behind the last packet. -/
theorem read_encode (ps : List (Packet lim max)) (rest : List ℕ) :
    read lim max (expand ps).length (encode ps ++ rest) = some (expand ps, rest) := by
  induction ps with
  | nil => simp [read]
  | cons p ps ih =>
      have hpos := p.expand_length_pos
      obtain ⟨n, hn⟩ : ∃ n, (expand (p :: ps)).length = n + 1 :=
        Nat.exists_eq_succ_of_ne_zero (by
          rw [expand_cons, List.length_append]
          omega)
      have hlen : p.expand.length + (expand ps).length = n + 1 := by
        rw [← hn, expand_cons, List.length_append]
      rw [hn, read, encode_cons, List.append_assoc, readPacket_encode, Option.bind_some]
      dsimp only
      rw [if_pos (by omega), show n + 1 - p.expand.length = (expand ps).length by omega, ih,
        Option.map_some, expand_cons]

/-! ### Counts -/

/-- A code has no number above those of its symbols and the largest count. -/
lemma encode_le {ps : List (Packet lim max)} {b : ℕ} (hb : lim + max ≤ b)
    (h : ∀ x ∈ expand ps, x ≤ b) : ∀ x ∈ encode ps, x ≤ b := by
  induction ps with
  | nil => simp
  | cons p ps ih =>
      simp only [expand_cons, encode_cons, List.mem_append] at h ⊢
      rintro x (hx | hx)
      · have hp : ∀ x ∈ p.expand, x ≤ b := fun x hx => h x (Or.inl hx)
        cases p with
        | dump data pos le =>
            rcases List.mem_cons.mp hx with rfl | hx
            · omega
            · exact hp x hx
        | run length symbol pos le =>
            rw [Packet.encode, List.mem_pair] at hx
            rcases hx with rfl | rfl
            · omega
            · exact hp _ (List.mem_replicate.mpr ⟨by omega, rfl⟩)
      · exact ih (fun x hx => h x (Or.inr hx)) x hx

end RunLength

end Mdb
