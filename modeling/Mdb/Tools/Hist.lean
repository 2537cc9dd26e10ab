import Mdb.Base.Word
import Mdb.Library.Bisect

/-!
Histograms of times (`tools/hist.c`).

A histogram has `size` bins and two more, for the values below and above the range. A read or a
write outside the array ends in `none`, and so would a search that never ends.

* `perf_hist_search_counts`: on bins in order, each of which ends where the next one begins, the
  search finds the bin of a value, and every value added is counted once;
* `perf_hist_linear_iff`: which values the bins of `perf_hist_init` put where the range says.
-/

namespace Mdb

/-! ### The histogram -/

/-- `struct perf_hist_bin`. -/
structure PerfHistBin where
  data : ℕ
  min : ℕ
  max : ℕ
  deriving DecidableEq

/-- `struct perf_hist` with the array `bin` points to. -/
structure PerfHist where
  size : ℕ
  bin : List PerfHistBin
  deriving DecidableEq

/-- `HIST_BOUNDL`. -/
def histBoundl (hist : PerfHist) : ℕ := hist.size

/-- `HIST_BOUNDR`. -/
def histBoundr (hist : PerfHist) : ℕ := u32 (hist.size + 1)

/-- A store of both ends of the bin `i`. -/
def PerfHist.setBin (hist : PerfHist) (i min max : ℕ) : PerfHist :=
  { hist with bin := hist.bin.modify i fun b => { b with min := min, max := max } }

/-- The end of the bin `i` as `perf_hist_init` computes it. The logarithmic scale is computed in
floating point: `fi i` is the number it adds to `min`. -/
def binMax (size min max : ℕ) (logScale : Bool) (fi : ℕ → ℕ) (i : ℕ) : ℕ :=
  let width := u64Sub max min
  if logScale then u64 (min + fi i)
  else u64 (min + u64 (width / size * (i + 1)))

/-- The loop of `perf_hist_init` from the bin `i` on, with `r` bins left. -/
def perfHistFill (size min max : ℕ) (logScale : Bool) (fi : ℕ → ℕ) :
    ℕ → ℕ → ℕ → PerfHist → PerfHist
  | 0, _, _, hist => hist
  | r + 1, i, binMin, hist =>
      let end_ := binMax size min max logScale fi i
      perfHistFill size min max logScale fi r (i + 1) end_ (hist.setBin i binMin end_)

/-- `perf_hist_init`, with an allocation that succeeds. -/
def perfHistInit (size min max : ℕ) (logScale : Bool) (fi : ℕ → ℕ) : PerfHist :=
  let hist : PerfHist := ⟨size, List.replicate (u32 (size + 2)) ⟨0, 0, 0⟩⟩
  let hist := hist.setBin (histBoundl hist) min min
  let hist := hist.setBin (histBoundr hist) max max
  perfHistFill size min max logScale fi size 0 min hist

/-- `perf_hist_check_range`. -/
def perfHistCheckRange (bin : PerfHistBin) (val : ℕ) : ℤ :=
  if val < bin.min then -1
  else if val ≥ bin.max then 1
  else 0

/-- The loop of `perf_hist_bsearch`, and the `return` behind it. -/
def perfHistBsearchLoop (hist : PerfHist) (val : ℕ) : ℕ → ℤ → ℤ → Option ℤ
  | 0, _, _ => none
  | fuel + 1, l, r =>
      if l ≤ r then
        let m := l + (r - l).tdiv 2
        if m < 0 then none
        else
          hist.bin[m.toNat]?.bind fun bin =>
            let cmp := perfHistCheckRange bin val
            if cmp = 0 then some (i32 m)
            else if cmp = 1 then perfHistBsearchLoop hist val fuel (m + 1) r
            else perfHistBsearchLoop hist val fuel l (m - 1)
      else some (i32 (if l = 0 then histBoundl hist else histBoundr hist))

/-- `perf_hist_bsearch`. The size is a `uint32_t`, so the interval has at most `2 ^ 32` bins. -/
def perfHistBsearch (hist : PerfHist) (val : ℕ) : Option ℤ :=
  perfHistBsearchLoop hist val u32Fuel 0 (u32Pred hist.size)

/-- `++bin->data`. -/
def PerfHistBin.count (bin : PerfHistBin) : PerfHistBin := { bin with data := u64 (bin.data + 1) }

/-- The counter with the index `i` incremented. -/
def PerfHist.count (hist : PerfHist) (i : ℕ) : PerfHist :=
  { hist with bin := hist.bin.modify i PerfHistBin.count }

/-- `perf_hist_add`. -/
def perfHistAdd (hist : PerfHist) (val : ℕ) : Option PerfHist :=
  (perfHistBsearch hist val).bind fun idx =>
    if 0 ≤ idx ∧ idx < hist.bin.length then some (hist.count idx.toNat) else none

/-- `perf_hist_add` on one value after the other. -/
def perfHistAdds (hist : PerfHist) (vals : List ℕ) : Option PerfHist :=
  vals.foldlM perfHistAdd hist

/-! ### Bins and counters -/

namespace PerfHist

/-- A bin of the array. -/
def binAt (hist : PerfHist) (i : ℕ) : PerfHistBin := hist.bin.getD i ⟨0, 0, 0⟩

/-- The bin `i` is the one for the value. -/
def Covers (hist : PerfHist) (i val : ℕ) : Prop :=
  (hist.binAt i).min ≤ val ∧ val < (hist.binAt i).max

/-- The samples counted. -/
def total (hist : PerfHist) : ℕ := (hist.bin.map PerfHistBin.data).sum

/-- The array has room for the bins and the two behind them, and an `int` for their indices. -/
structure Allocated (hist : PerfHist) : Prop where
  size_pos : 1 ≤ hist.size
  size_le : hist.size ≤ 2 ^ 31 - 3
  length : hist.bin.length = hist.size + 2

/-- Bins in order, each of which ends where the next one begins; some may be empty. -/
structure Contiguous (hist : PerfHist) : Prop extends Allocated hist where
  min_le_max : ∀ i < hist.size, (hist.binAt i).min ≤ (hist.binAt i).max
  max_eq_min : ∀ i, i + 1 < hist.size → (hist.binAt i).max = (hist.binAt (i + 1)).min

variable {hist : PerfHist} {i j val : ℕ}

@[simp] lemma count_size (hist : PerfHist) (i : ℕ) : (hist.count i).size = hist.size := rfl

@[simp] lemma count_length (hist : PerfHist) (i : ℕ) :
    (hist.count i).bin.length = hist.bin.length := List.length_modify ..

lemma getElem?_bin (h : hist.Allocated) (hi : i < hist.size + 2) :
    hist.bin[i]? = some (hist.binAt i) := by
  rw [binAt, List.getD_eq_getElem?_getD, List.getElem?_eq_getElem (by rw [h.length]; exact hi)]
  rfl

/-- Counting leaves the ends of all bins alone. -/
lemma binAt_count (hist : PerfHist) (i j : ℕ) :
    ((hist.count i).binAt j).min = (hist.binAt j).min ∧
      ((hist.count i).binAt j).max = (hist.binAt j).max := by
  simp only [binAt, count, List.getD_eq_getElem?_getD, List.getElem?_modify]
  cases hist.bin[j]? with
  | none => exact ⟨rfl, rfl⟩
  | some b => by_cases hij : i = j <;> simp [hij, PerfHistBin.count]

lemma Allocated.count (h : hist.Allocated) (i : ℕ) : (hist.count i).Allocated :=
  ⟨h.size_pos, h.size_le, by rw [count_length, h.length, count_size]⟩

lemma Contiguous.count (h : hist.Contiguous) (i : ℕ) : (hist.count i).Contiguous where
  toAllocated := h.toAllocated.count i
  min_le_max j hj := by
    rw [(binAt_count hist i j).1, (binAt_count hist i j).2]
    exact h.min_le_max j hj
  max_eq_min j hj := by
    rw [(binAt_count hist i j).2, (binAt_count hist i (j + 1)).1]
    exact h.max_eq_min j hj

/-- Both ends of the bins grow with the index. -/
lemma Contiguous.ends_mono (h : hist.Contiguous) (hij : i ≤ j) (hj : j < hist.size) :
    (hist.binAt i).min ≤ (hist.binAt j).min ∧ (hist.binAt i).max ≤ (hist.binAt j).max := by
  induction j, hij using Nat.le_induction with
  | base => exact ⟨le_rfl, le_rfl⟩
  | succ j hij ih =>
      obtain ⟨hmin, hmax⟩ := ih (by omega)
      have hj₁ := h.min_le_max j (by omega)
      have hj₂ := h.min_le_max (j + 1) hj
      have hj₃ := h.max_eq_min j hj
      omega

/-- A value has one bin at most. -/
lemma Contiguous.covers_unique (h : hist.Contiguous) (hi : i < hist.size) (hj : j < hist.size)
    (hci : hist.Covers i val) (hcj : hist.Covers j val) : i = j := by
  have hlt : ∀ {a b}, b < hist.size → hist.Covers a val → hist.Covers b val → ¬ a < b := by
    intro a b hb ha hcb hab
    have h₁ := h.max_eq_min a (by omega)
    have h₂ := (h.ends_mono (i := a + 1) (j := b) (by omega) hb).1
    have h₃ := ha.2
    have h₄ := hcb.1
    omega
  have h₁ := hlt hj hci hcj
  have h₂ := hlt hi hcj hci
  omega

end PerfHist

/-! ### The search -/

namespace PerfHist

/-- Where a value lies relative to a bin. -/
def order (hist : PerfHist) (val : ℕ) (m : ℤ) : Ordering :=
  if val < (hist.binAt m.toNat).min then .lt
  else if (hist.binAt m.toNat).max ≤ val then .gt
  else .eq

/-- What `perf_hist_bsearch` returns when its loop has ended. -/
def place (hist : PerfHist) : Bisected → ℕ
  | .found m => m.toNat
  | .absent l => if l = 0 then hist.size else hist.size + 1

variable {hist : PerfHist} {val : ℕ}

lemma order_eq_lt_iff {m : ℤ} :
    hist.order val m = .lt ↔ val < (hist.binAt m.toNat).min := by
  rw [order]
  split_ifs <;> simp_all

lemma order_eq_eq_iff {m : ℤ} : hist.order val m = .eq ↔ hist.Covers m.toNat val := by
  rw [order, Covers]
  split_ifs <;> simp_all

lemma order_eq_gt_iff {m : ℤ} :
    hist.order val m = .gt ↔
      (hist.binAt m.toNat).min ≤ val ∧ (hist.binAt m.toNat).max ≤ val := by
  rw [order]
  split_ifs <;> simp_all

/-- Contiguous bins are in order for every value. -/
lemma Contiguous.inOrder (h : hist.Contiguous) (val : ℕ) :
    InOrder (hist.order val) hist.size where
  lt_of_le i j hi hij hj hlt := by
    rw [order_eq_lt_iff] at hlt ⊢
    exact hlt.trans_le (h.ends_mono (by omega) (by omega)).1
  gt_of_le i j hi hij hj hgt := by
    rw [order_eq_gt_iff] at hgt ⊢
    obtain ⟨hmin, hmax⟩ := h.ends_mono (i := i.toNat) (j := j.toNat) (by omega) (by omega)
    exact ⟨hmin.trans hgt.1, hmax.trans hgt.2⟩

/-- **The loop is a bisection**: inside the array it reads what it compares, and the indices fit
in an `int`. -/
lemma perfHistBsearchLoop_eq (h : hist.Allocated) {fuel : ℕ} : ∀ {l r : ℤ}, 0 ≤ l →
    r < hist.size →
      perfHistBsearchLoop hist val fuel l r
        = (bisect (hist.order val) fuel l r).map fun e => (hist.place e : ℤ) := by
  have hsize := h.size_le
  induction fuel with
  | zero => intro l r _ _; rfl
  | succ fuel ih =>
      intro l r hl hr
      rw [perfHistBsearchLoop, bisect]
      by_cases hlr : l ≤ r
      · rw [if_pos hlr, if_pos hlr]
        have hdiv : (r - l).tdiv 2 = (r - l) / 2 := Int.tdiv_eq_ediv_of_nonneg (by omega)
        rw [hdiv]
        set m := l + (r - l) / 2 with hm
        have hread : hist.bin[m.toNat]? = some (hist.binAt m.toNat) :=
          getElem?_bin h (by omega)
        dsimp only
        rw [if_neg (by omega), hread, Option.bind_some, perfHistCheckRange]
        by_cases hlt : val < (hist.binAt m.toNat).min
        · rw [if_pos hlt, order_eq_lt_iff.mpr hlt]
          exact ih hl (by omega)
        · rw [if_neg hlt]
          by_cases hge : (hist.binAt m.toNat).max ≤ val
          · rw [if_pos hge, order_eq_gt_iff.mpr ⟨not_lt.mp hlt, hge⟩]
            exact ih (by omega) hr
          · rw [if_neg hge, order_eq_eq_iff.mpr ⟨not_lt.mp hlt, not_le.mp hge⟩]
            have hplace : (hist.place (.found m) : ℤ) = m := Int.toNat_of_nonneg (by omega)
            dsimp only
            rw [Option.map_some, hplace, i32_of_lt (by omega) (by omega)]
            rfl
      · rw [if_neg hlr, if_neg hlr]
        rw [histBoundl, histBoundr, u32_of_lt (by omega), i32_of_lt (by split <;> omega)
          (by split <;> omega), Option.map_some, place]
        split <;> rfl

/-- The search starts with all the bins. -/
lemma perfHistBsearch_eq (h : hist.Allocated) :
    perfHistBsearch hist val
      = (bisect (hist.order val) u32Fuel 0 (hist.size - 1)).map fun e => (hist.place e : ℤ) := by
  have hsize := h.size_le
  have hpos := h.size_pos
  have hr : (u32Pred hist.size : ℤ) = hist.size - 1 := by
    rw [u32Pred_of_pos hpos (by omega)]
    omega
  rw [perfHistBsearch, hr]
  exact perfHistBsearchLoop_eq h le_rfl (by omega)

/-- Whatever the bins, the search ends at an index inside the array. -/
lemma exists_perfHistBsearch (h : hist.Allocated) (val : ℕ) :
    ∃ i < hist.size + 2, perfHistBsearch hist val = some (i : ℤ) := by
  have hsize := h.size_le
  have hpos := h.size_pos
  obtain ⟨e, he, hin⟩ := bisect_ends (hist.order val)
    (show (0 : ℤ) ≤ hist.size - 1 + 1 by omega)
    (show (hist.size : ℤ) - 1 - 0 + 1 < u32Fuel by rw [u32Fuel]; omega)
  refine ⟨hist.place e, ?_, by rw [perfHistBsearch_eq h, he]; rfl⟩
  cases e with
  | found m =>
      have := hin m rfl
      rw [place]
      omega
  | absent l =>
      rw [place]
      split <;> omega

/-- What the index `i` says about a value: it is in the bin `i`, or below all bins, or above. -/
def Says (hist : PerfHist) (i val : ℕ) : Prop :=
  (i < hist.size ∧ hist.Covers i val) ∨
    (i = hist.size ∧ val < (hist.binAt 0).min) ∨
      (i = hist.size + 1 ∧ (hist.binAt (hist.size - 1)).max ≤ val)

/-- **The search finds the bin of a value**, or on which side of the bins it is. -/
lemma Contiguous.perfHistBsearch_says (h : hist.Contiguous) (val : ℕ) :
    ∃ i : ℕ, perfHistBsearch hist val = some (i : ℤ) ∧ hist.Says i val := by
  have hsize := h.size_le
  have hpos := h.size_pos
  obtain ⟨e, he, hright⟩ := bisect_spec (h.inOrder val) le_rfl
    (show (0 : ℤ) ≤ hist.size - 1 + 1 by omega) (by omega) (fun i _ _ => by omega)
    (fun i _ _ => by omega)
    (show (hist.size : ℤ) - 1 - 0 + 1 < u32Fuel by rw [u32Fuel]; omega)
  refine ⟨hist.place e, by rw [perfHistBsearch_eq h.toAllocated, he]; rfl, ?_⟩
  cases e with
  | found m =>
      obtain ⟨hm, hlt, heq⟩ := hright
      exact Or.inl ⟨by rw [place]; omega, order_eq_eq_iff.mp heq⟩
  | absent l =>
      obtain ⟨hl, hle, hbelow, habove⟩ := hright
      rw [place]
      by_cases h0 : l = 0
      · -- every bin is above the value, the first one too
        rw [if_pos h0]
        have hfirst := order_eq_lt_iff.mp (habove 0 (by omega) (by omega))
        exact Or.inr (Or.inl ⟨rfl, hfirst⟩)
      · rw [if_neg h0]
        -- the cut is behind the last bin, since a bin ends where the next one begins
        have hprev := order_eq_gt_iff.mp (hbelow (l - 1) (by omega) (by omega))
        have hend : l = hist.size := by
          by_contra hne
          have hnext := order_eq_lt_iff.mp (habove l le_rfl (by omega))
          have heq := h.max_eq_min (l - 1).toNat (by omega)
          rw [show (l - 1).toNat + 1 = l.toNat by omega] at heq
          omega
        refine Or.inr (Or.inr ⟨rfl, ?_⟩)
        rw [show hist.size - 1 = (l - 1).toNat by omega]
        exact hprev.2

/-- Only one index says anything about a value. -/
lemma Contiguous.says_unique (h : hist.Contiguous) {i j : ℕ} (hi : hist.Says i val)
    (hj : hist.Says j val) : i = j := by
  have hpos := h.size_pos
  have hbelow : ∀ k < hist.size, hist.Covers k val → ¬ val < (hist.binAt 0).min := fun k hk hc => by
    have := (h.ends_mono (Nat.zero_le k) hk).1
    have := hc.1
    omega
  have habove : ∀ k < hist.size, hist.Covers k val →
      ¬ (hist.binAt (hist.size - 1)).max ≤ val := fun k hk hc => by
    have := (h.ends_mono (show k ≤ hist.size - 1 by omega) (by omega)).2
    have := hc.2
    omega
  have hboth : val < (hist.binAt 0).min → ¬ (hist.binAt (hist.size - 1)).max ≤ val := fun hlt => by
    have h₁ := (h.ends_mono (Nat.zero_le (hist.size - 1)) (by omega)).1
    have h₂ := h.min_le_max (hist.size - 1) (by omega)
    omega
  rcases hi with ⟨hi, hci⟩ | ⟨rfl, hi⟩ | ⟨rfl, hi⟩ <;>
    rcases hj with ⟨hj, hcj⟩ | ⟨rfl, hj⟩ | ⟨rfl, hj⟩
  · exact h.covers_unique hi hj hci hcj
  · exact absurd hj (hbelow i hi hci)
  · exact absurd hj (habove i hi hci)
  · exact absurd hi (hbelow j hj hcj)
  · rfl
  · exact absurd hj (hboth hi)
  · exact absurd hi (habove j hj hcj)
  · exact absurd hi (hboth hj)
  · rfl

end PerfHist

/-! ### Counting -/

namespace PerfHist

variable {hist hist' : PerfHist} {i j val : ℕ} {vals : List ℕ}

instance (hist : PerfHist) (i val : ℕ) : Decidable (hist.Says i val) :=
  inferInstanceAs (Decidable ((_ ∧ _ ∧ _) ∨ _ ∨ _))

/-- What the indices say depends on the ends of the bins only. -/
lemma says_count : (hist.count i).Says j val ↔ hist.Says j val := by
  simp only [Says, Covers, count_size, (binAt_count hist i _).1, (binAt_count hist i _).2]

/-- The counter of an index after another one has been incremented, or itself. -/
lemma data_count (h : hist.Allocated) (hj : j < hist.size + 2) :
    ((hist.count i).binAt j).data
      = if i = j then u64 ((hist.binAt j).data + 1) else (hist.binAt j).data := by
  have hmodify : (hist.count i).bin[j]?
      = (fun b : PerfHistBin => if i = j then b.count else b) <$> hist.bin[j]? :=
    List.getElem?_modify ..
  rw [getElem?_bin (h.count i) hj, getElem?_bin h hj] at hmodify
  rw [Option.some.inj hmodify]
  split_ifs <;> rfl

/-- A list of counters with one of them changed. -/
lemma sum_data_modify (f : PerfHistBin → PerfHistBin) : ∀ {bins : List PerfHistBin} {i : ℕ}
    (hi : i < bins.length), ((bins.modify i f).map PerfHistBin.data).sum + bins[i].data
      = (bins.map PerfHistBin.data).sum + (f bins[i]).data
  | b :: bins, 0, _ => by
      simp only [List.modify_zero_cons, List.map_cons, List.sum_cons, List.getElem_cons_zero]
      omega
  | b :: bins, i + 1, hi => by
      have ih := sum_data_modify f (show i < bins.length from Nat.lt_of_succ_lt_succ hi)
      simp only [List.modify_succ_cons, List.map_cons, List.sum_cons, List.getElem_cons_succ]
      omega

/-- A counter is at most all of them together. -/
lemma data_le_total (hi : i < hist.bin.length) : hist.bin[i].data ≤ hist.total :=
  List.le_sum_of_mem (List.mem_map.mpr ⟨_, List.getElem_mem hi, rfl⟩)

/-- A sample is counted once, unless its counter is full. -/
lemma total_count (hi : i < hist.bin.length) :
    (hist.count i).total ≡ hist.total + 1 [MOD 2 ^ 64] ∧
      (hist.total + 1 < 2 ^ 64 → (hist.count i).total = hist.total + 1) := by
  have hsum : (hist.count i).total + hist.bin[i].data = hist.total + u64 (hist.bin[i].data + 1) :=
    sum_data_modify PerfHistBin.count hi
  have hle := data_le_total hi
  rw [Nat.ModEq]
  rw [u64] at hsum
  constructor <;> omega

/-- A value is added at the index found for it. -/
lemma perfHistAdd_eq (h : hist.Allocated) (hi : i < hist.size + 2)
    (hsearch : perfHistBsearch hist val = some (i : ℤ)) :
    perfHistAdd hist val = some (hist.count i) := by
  have hlen := h.length
  rw [perfHistAdd, hsearch, Option.bind_some, if_pos (by omega), Int.toNat_natCast]

/-- Adding a value changes one counter. -/
lemma exists_perfHistAdd (h : hist.Allocated) (val : ℕ) :
    ∃ i < hist.size + 2, perfHistAdd hist val = some (hist.count i) := by
  obtain ⟨i, hi, hsearch⟩ := exists_perfHistBsearch h val
  exact ⟨i, hi, perfHistAdd_eq h hi hsearch⟩

lemma Says.lt (h : hist.Says i val) : i < hist.size + 2 := by
  rcases h with ⟨hi, -⟩ | ⟨rfl, -⟩ | ⟨rfl, -⟩ <;> omega

lemma Contiguous.perfHistAdd_says (h : hist.Contiguous) (val : ℕ) :
    ∃ i, perfHistAdd hist val = some (hist.count i) ∧ hist.Says i val := by
  obtain ⟨i, hsearch, hsays⟩ := h.perfHistBsearch_says val
  exact ⟨i, perfHistAdd_eq h.toAllocated hsays.lt hsearch, hsays⟩

lemma total_eq_sum (h : hist.Allocated) :
    hist.total = ∑ j ∈ Finset.range (hist.size + 2), (hist.binAt j).data := by
  have hbin : hist.bin = (List.range (hist.size + 2)).map hist.binAt := by
    refine List.ext_getElem? fun j => ?_
    by_cases hj : j < hist.size + 2
    · rw [getElem?_bin h hj, List.getElem?_map, List.getElem?_range hj]
      rfl
    · rw [List.getElem?_eq_none (by rw [h.length]; omega),
        List.getElem?_eq_none (by simpa using hj)]
  rw [total, hbin, List.map_map]
  rfl

/-- Values that are added leave the array where it is. -/
lemma allocated_perfHistAdds (h : hist.Allocated) (hadds : perfHistAdds hist vals = some hist') :
    hist'.Allocated ∧ hist'.size = hist.size := by
  induction vals generalizing hist with
  | nil =>
      obtain rfl := Option.some.inj hadds
      exact ⟨h, rfl⟩
  | cons val vals ih =>
      obtain ⟨i, -, hadd⟩ := exists_perfHistAdd h val
      rw [perfHistAdds, List.foldlM_cons, hadd] at hadds
      obtain ⟨halloc, hsize⟩ := ih (h.count i) hadds
      exact ⟨halloc, hsize⟩

/-- Adding one more value. -/
lemma perfHistAdds_concat {hist'' : PerfHist} (hadds : perfHistAdds hist vals = some hist')
    (hadd : perfHistAdd hist' val = some hist'') :
    perfHistAdds hist (vals ++ [val]) = some hist'' := by
  rw [perfHistAdds, List.foldlM_append, ← perfHistAdds, hadds, Option.bind_eq_bind,
    Option.bind_some, List.foldlM_cons, hadd]
  rfl

/-- **Every value added is counted once**, as long as no counter is full. -/
lemma perfHistAdds_total (h : hist.Allocated) (vals : List ℕ) :
    ∃ hist', perfHistAdds hist vals = some hist' ∧
      hist'.total ≡ hist.total + vals.length [MOD 2 ^ 64] ∧
      (hist.total + vals.length < 2 ^ 64 → hist'.total = hist.total + vals.length) := by
  induction vals generalizing hist with
  | nil => exact ⟨hist, rfl, rfl, fun _ => rfl⟩
  | cons val vals ih =>
      obtain ⟨i, hi, hadd⟩ := exists_perfHistAdd h val
      have hone := total_count (show i < hist.bin.length by rw [h.length]; exact hi)
      obtain ⟨hist', hadds, hmod, heq⟩ := ih (h.count i)
      refine ⟨hist', ?_, ?_, fun hlt => ?_⟩
      · rw [perfHistAdds, List.foldlM_cons, hadd]
        exact hadds
      · calc hist'.total ≡ (hist.count i).total + vals.length [MOD 2 ^ 64] := hmod
          _ ≡ hist.total + 1 + vals.length [MOD 2 ^ 64] := hone.1.add_right _
          _ = hist.total + (val :: vals).length := by rw [List.length_cons]; omega
      · rw [List.length_cons] at hlt ⊢
        have hone' := hone.2 (by omega)
        rw [heq (by omega)]
        omega

/-- **A counter counts the values of its bin**, modulo `2 ^ 64`. -/
lemma Contiguous.perfHistAdds_data (h : hist.Contiguous) (hj : j < hist.size + 2)
    (hdata : (hist.binAt j).data < 2 ^ 64) (hadds : perfHistAdds hist vals = some hist') :
    (hist'.binAt j).data
      = u64 ((hist.binAt j).data + vals.countP fun val => hist.Says j val) := by
  induction vals generalizing hist with
  | nil =>
      obtain rfl := Option.some.inj hadds
      rw [List.countP_nil, Nat.add_zero, u64_of_lt hdata]
  | cons val vals ih =>
      obtain ⟨i, hadd, hsays⟩ := h.perfHistAdd_says val
      rw [perfHistAdds, List.foldlM_cons, hadd] at hadds
      have hone := data_count (i := i) h.toAllocated hj
      have hdata' : ((hist.count i).binAt j).data < 2 ^ 64 := by
        rw [hone]
        split_ifs
        · exact Nat.mod_lt _ (by norm_num)
        · exact hdata
      have hrest := ih (h.count i) hj hdata' hadds
      simp only [says_count] at hrest
      rw [hrest, hone, List.countP_cons]
      by_cases hij : i = j
      · subst hij
        simp only [decide_eq_true hsays, if_true, u64]
        omega
      · have hno : ¬ hist.Says j val := fun hs => hij (h.says_unique hsays hs)
        simp only [if_neg hij, decide_eq_false hno, Bool.false_eq_true, if_false, Nat.add_zero]

end PerfHist

/-! ### Sorted tables -/

/-- **`perf_hist_bsearch` is right on every table of contiguous bins**: it returns the bin of the
value, or on which side of the bins the value is; a value that is added changes that counter and
nothing else; and the counters sum to the number of values added, modulo `2 ^ 64`. -/
theorem perf_hist_search_counts {hist : PerfHist} (h : hist.Contiguous) :
    (∀ val, ∃ i : ℕ, perfHistBsearch hist val = some (i : ℤ) ∧
      (∀ k < hist.size, hist.Covers k val → i = k) ∧
      (val < (hist.binAt 0).min → i = hist.size) ∧
      ((hist.binAt (hist.size - 1)).max ≤ val → i = hist.size + 1) ∧
      i < hist.size + 2 ∧ (i < hist.size → hist.Covers i val) ∧
      perfHistAdd hist val = some (hist.count i)) ∧
    ∀ vals, ∃ hist', perfHistAdds hist vals = some hist' ∧
      hist'.total ≡ hist.total + vals.length [MOD 2 ^ 64] ∧
      (hist.total + vals.length < 2 ^ 64 → hist'.total = hist.total + vals.length) := by
  refine ⟨fun val => ?_, PerfHist.perfHistAdds_total h.toAllocated⟩
  obtain ⟨i, hsearch, hsays⟩ := h.perfHistBsearch_says val
  refine ⟨i, hsearch, fun k hk hc => ?_, fun hlt => ?_, fun hge => ?_, hsays.lt, fun hi => ?_, ?_⟩
  · exact h.says_unique hsays (Or.inl ⟨hk, hc⟩)
  · exact h.says_unique hsays (Or.inr (Or.inl ⟨rfl, hlt⟩))
  · exact h.says_unique hsays (Or.inr (Or.inr ⟨rfl, hge⟩))
  · rcases hsays with ⟨-, hc⟩ | ⟨rfl, -⟩ | ⟨rfl, -⟩
    · exact hc
    · exact absurd hi (lt_irrefl _)
    · omega
  · exact PerfHist.perfHistAdd_eq h.toAllocated hsays.lt hsearch

/-- Three bins, the second of them empty, and the two behind them. -/
def threeBins : PerfHist :=
  ⟨3, [⟨0, 5, 10⟩, ⟨0, 10, 10⟩, ⟨0, 10, 25⟩, ⟨0, 0, 5⟩, ⟨0, 25, 25⟩]⟩

lemma threeBins_contiguous : threeBins.Contiguous where
  size_pos := by norm_num [threeBins]
  size_le := by norm_num [threeBins]
  length := rfl
  min_le_max := by decide
  max_eq_min i hi := by
    obtain rfl | rfl : i = 0 ∨ i = 1 := by
      have hi' : i + 1 < 3 := hi
      omega
    all_goals rfl

/-- The theorem at a table of three bins, where 10 is in the last one. -/
theorem perf_hist_search_counts_three_bins :
    (∃ i : ℕ, perfHistBsearch threeBins 10 = some (i : ℤ) ∧ i = 2) ∧
      ∃ hist', perfHistAdds threeBins [7, 10, 3, 24, 10, 30] = some hist' ∧ hist'.total = 6 := by
  obtain ⟨hsearch, hadds⟩ := perf_hist_search_counts threeBins_contiguous
  obtain ⟨i, hi, hcovers, -⟩ := hsearch 10
  obtain ⟨hist', hadd, -, hlt⟩ := hadds [7, 10, 3, 24, 10, 30]
  exact ⟨⟨i, hi, hcovers 2 (by decide) (by unfold PerfHist.Covers; decide)⟩, hist', hadd,
    hlt (by decide)⟩

/-- One bin, from 0 to 10, and the two behind it. -/
def oneBin : PerfHist := ⟨1, [⟨0, 0, 10⟩, ⟨0, 0, 0⟩, ⟨0, 10, 10⟩]⟩

lemma oneBin_contiguous : oneBin.Contiguous where
  size_pos := le_rfl
  size_le := by norm_num [oneBin]
  length := rfl
  min_le_max i hi := by
    obtain rfl : i = 0 := Nat.lt_one_iff.mp hi
    decide
  max_eq_min i hi := absurd hi (by simp [oneBin])

/-- A counter that has counted `2 ^ 64` values is at zero again. -/
theorem perf_hist_count_wraps :
    ¬ ∀ hist : PerfHist, hist.Contiguous → hist.total = 0 → ∀ vals hist',
      perfHistAdds hist vals = some hist' → hist'.total = vals.length := by
  intro hall
  obtain ⟨hist', hadds, -⟩ :=
    PerfHist.perfHistAdds_total oneBin_contiguous.toAllocated (List.replicate (2 ^ 64) 7)
  have htotal := hall oneBin oneBin_contiguous rfl _ _ hadds
  obtain ⟨halloc, hsize⟩ := PerfHist.allocated_perfHistAdds oneBin_contiguous.toAllocated hadds
  have hzero : ∀ j ∈ Finset.range (hist'.size + 2), (hist'.binAt j).data = 0 := by
    intro j hj
    rw [Finset.mem_range, hsize] at hj
    have hstart : (oneBin.binAt j).data = 0 := by
      revert j
      decide
    rw [oneBin_contiguous.perfHistAdds_data hj (by rw [hstart]; norm_num) hadds, hstart,
      List.countP_replicate]
    split_ifs <;> rfl
  rw [PerfHist.total_eq_sum halloc, Finset.sum_eq_zero hzero, List.length_replicate] at htotal
  exact absurd htotal (by norm_num)

/-! ### The bins of `perf_hist_init` -/

namespace PerfHist

variable {hist : PerfHist} {size min max : ℕ} {logScale : Bool} {fi : ℕ → ℕ} {i j a b : ℕ}

@[simp] lemma setBin_size (hist : PerfHist) (i a b : ℕ) :
    (hist.setBin i a b).size = hist.size := rfl

@[simp] lemma setBin_length (hist : PerfHist) (i a b : ℕ) :
    (hist.setBin i a b).bin.length = hist.bin.length := List.length_modify ..

lemma binAt_setBin_self (hi : i < hist.bin.length) :
    (hist.setBin i a b).binAt i = ⟨(hist.binAt i).data, a, b⟩ := by
  simp only [binAt, setBin, List.getD_eq_getElem?_getD, List.getElem?_modify,
    List.getElem?_eq_getElem hi]
  simp

lemma binAt_setBin_of_ne (hij : i ≠ j) : (hist.setBin i a b).binAt j = hist.binAt j := by
  simp only [binAt, setBin, List.getD_eq_getElem?_getD, List.getElem?_modify_ne _ _ hij]

/-- The ends of the bins, from the begin of the first one on. -/
def edge (size min max : ℕ) (logScale : Bool) (fi : ℕ → ℕ) : ℕ → ℕ
  | 0 => min
  | i + 1 => binMax size min max logScale fi i

/-- The loop sets the bins it goes over, and nothing else. -/
lemma perfHistFill_spec (size min max : ℕ) (logScale : Bool) (fi : ℕ → ℕ) {r : ℕ} :
    ∀ (i : ℕ) (hist : PerfHist), i + r ≤ hist.bin.length →
    let hist' := perfHistFill size min max logScale fi r i (edge size min max logScale fi i) hist
    hist'.size = hist.size ∧ hist'.bin.length = hist.bin.length ∧
      (∀ j, i ≤ j → j < i + r → hist'.binAt j = ⟨(hist.binAt j).data,
        edge size min max logScale fi j, edge size min max logScale fi (j + 1)⟩) ∧
      ∀ j, j < i ∨ i + r ≤ j → hist'.binAt j = hist.binAt j := by
  induction r with
  | zero => exact fun _ _ _ => ⟨rfl, rfl, fun j _ _ => by omega, fun _ _ => rfl⟩
  | succ r ih =>
      intro i hist hlen
      set hist₁ := hist.setBin i (edge size min max logScale fi i)
        (edge size min max logScale fi (i + 1)) with hhist₁
      have hlen₁ : hist₁.bin.length = hist.bin.length := setBin_length ..
      obtain ⟨hsize, hlength, hset, hrest⟩ := ih (i + 1) hist₁ (by omega)
      refine ⟨hsize, hlength.trans hlen₁, fun j hij hj => ?_, fun j hj => ?_⟩
      · rcases hij.eq_or_lt with rfl | hlt
        · exact (hrest i (by omega)).trans (binAt_setBin_self (by omega))
        · refine (hset j hlt (by omega)).trans ?_
          rw [hhist₁, binAt_setBin_of_ne (by omega)]
      · exact (hrest j (by omega)).trans (binAt_setBin_of_ne (by omega))

/-- The bins are those between one edge and the next, and nothing has been counted. -/
lemma perfHistInit_spec (min max : ℕ) (logScale : Bool) (fi : ℕ → ℕ) (hpos : 1 ≤ size)
    (hsize : size ≤ 2 ^ 31 - 3) :
    let hist := perfHistInit size min max logScale fi
    hist.Allocated ∧ hist.size = size ∧ (∀ j < size + 2, (hist.binAt j).data = 0) ∧
      ∀ j < size, (hist.binAt j).min = edge size min max logScale fi j ∧
        (hist.binAt j).max = edge size min max logScale fi (j + 1) := by
  intro hist
  set start : PerfHist := ⟨size, List.replicate (u32 (size + 2)) ⟨0, 0, 0⟩⟩ with hstart
  set hist₀ := (start.setBin (histBoundl start) min min).setBin (histBoundr start) max max
    with hhist₀
  have hlen : start.bin.length = size + 2 := by
    rw [hstart, List.length_replicate, u32_of_lt (by omega)]
  have hlen₀ : hist₀.bin.length = size + 2 := by rw [hhist₀, setBin_length, setBin_length, hlen]
  have hdata : ∀ j < size + 2, (hist₀.binAt j).data = 0 := by
    have hset : ∀ {h : PerfHist} {i a b : ℕ}, h.bin.length = size + 2 →
        (∀ j < size + 2, (h.binAt j).data = 0) →
          ∀ j < size + 2, ((h.setBin i a b).binAt j).data = 0 := by
      intro h i a b hl hzero j hj
      by_cases hij : i = j
      · subst hij
        rw [binAt_setBin_self (by omega)]
        exact hzero i hj
      · rw [binAt_setBin_of_ne hij, hzero j hj]
    refine hset (by rw [setBin_length, hlen]) (hset hlen fun j hj => ?_)
    rw [binAt, hstart, List.getD_eq_getElem?_getD, List.getElem?_replicate]
    split_ifs <;> rfl
  obtain ⟨hsz, hl, hset, hrest⟩ := perfHistFill_spec size min max logScale fi 0 hist₀
    (show 0 + size ≤ hist₀.bin.length by omega)
  have hhist : hist = perfHistFill size min max logScale fi size 0
    (edge size min max logScale fi 0) hist₀ := rfl
  rw [hhist]
  refine ⟨⟨?_, ?_, ?_⟩, ?_, fun j hj => ?_, fun j hj => ?_⟩
  · rw [hsz]
    exact hpos
  · rw [hsz]
    exact hsize
  · rw [hl, hsz, hlen₀]
    rfl
  · rw [hsz]
    rfl
  · by_cases hlt : j < size
    · rw [hset j (Nat.zero_le j) (by omega)]
      exact hdata j hj
    · rw [hrest j (by omega)]
      exact hdata j hj
  · rw [hset j (Nat.zero_le j) (by omega)]
    exact ⟨rfl, rfl⟩

lemma perfHistInit_total (min max : ℕ) (logScale : Bool) (fi : ℕ → ℕ) (hpos : 1 ≤ size)
    (hsize : size ≤ 2 ^ 31 - 3) : (perfHistInit size min max logScale fi).total = 0 := by
  obtain ⟨halloc, hsz, hdata, -⟩ := perfHistInit_spec min max logScale fi hpos hsize
  rw [total_eq_sum halloc, hsz]
  exact Finset.sum_eq_zero fun j hj => hdata j (Finset.mem_range.mp hj)

/-- The edges of the linear scale. -/
lemma edge_linear (hlt : min < max) (hmax : max < 2 ^ 64) (hj : j ≤ size) :
    edge size min max false fi j = min + (max - min) / size * j := by
  have hstep : (max - min) / size * j ≤ max - min :=
    calc (max - min) / size * j ≤ (max - min) / size * size := Nat.mul_le_mul_left _ hj
      _ ≤ max - min := Nat.div_mul_le_self _ _
  cases j with
  | zero => rfl
  | succ i =>
      have hprod : u64 ((max - min) / size * (i + 1)) = (max - min) / size * (i + 1) :=
        u64_of_lt (by omega)
      rw [edge, binMax, u64Sub_of_le hlt.le hmax, if_neg Bool.false_ne_true, hprod,
        u64_of_lt (by omega)]

/-- The linear scale has contiguous bins. -/
lemma contiguous_linear (fi : ℕ → ℕ) (hpos : 1 ≤ size) (hsize : size ≤ 2 ^ 31 - 3) (hlt : min < max)
    (hmax : max < 2 ^ 64) : (perfHistInit size min max false fi).Contiguous := by
  obtain ⟨halloc, hsz, -, hbins⟩ := perfHistInit_spec min max false fi hpos hsize
  refine ⟨halloc, fun i hi => ?_, fun i hi => ?_⟩
  · rw [hsz] at hi
    rw [(hbins i hi).1, (hbins i hi).2, edge_linear hlt hmax hi.le, edge_linear hlt hmax hi]
    exact Nat.add_le_add_left (Nat.mul_le_mul_left _ (Nat.le_succ i)) _
  · rw [hsz] at hi
    rw [(hbins i (by omega)).2, (hbins (i + 1) hi).1]

/-- Where the bins of the linear scale begin and end. -/
lemma linear_range (fi : ℕ → ℕ) (hpos : 1 ≤ size) (hsize : size ≤ 2 ^ 31 - 3) (hlt : min < max)
    (hmax : max < 2 ^ 64) :
    ((perfHistInit size min max false fi).binAt 0).min = min ∧
      ((perfHistInit size min max false fi).binAt (size - 1)).max
        = min + (max - min) / size * size := by
  obtain ⟨-, -, -, hbins⟩ := perfHistInit_spec min max false fi hpos hsize
  refine ⟨(hbins 0 hpos).1, ?_⟩
  rw [(hbins (size - 1) (by omega)).2, edge_linear hlt hmax (by omega), Nat.sub_add_cancel hpos]

/-- Values that are added leave the ends of the bins where they are. -/
lemma ends_perfHistAdds {hist' : PerfHist} {vals : List ℕ} (h : hist.Contiguous)
    (hadds : perfHistAdds hist vals = some hist') :
    hist'.Contiguous ∧ hist'.size = hist.size ∧
      ∀ j, (hist'.binAt j).min = (hist.binAt j).min ∧ (hist'.binAt j).max = (hist.binAt j).max := by
  induction vals generalizing hist with
  | nil =>
      obtain rfl := Option.some.inj hadds
      exact ⟨h, rfl, fun _ => ⟨rfl, rfl⟩⟩
  | cons v vals ih =>
      obtain ⟨i, hadd, -⟩ := h.perfHistAdd_says v
      rw [perfHistAdds, List.foldlM_cons, hadd] at hadds
      obtain ⟨hcontig, hsize, hends⟩ := ih (h.count i) hadds
      refine ⟨hcontig, hsize, fun j => ?_⟩
      rw [(hends j).1, (hends j).2]
      exact binAt_count hist i j

/-- A table and the same table with a counter incremented tell which counter it was. -/
lemma count_inj (h : hist.Allocated) (hi : i < hist.size + 2) (heq : hist.count i = hist.count j) :
    i = j := by
  by_contra hne
  have hself := data_count (i := i) h hi
  rw [heq, data_count h hi, if_neg (Ne.symm hne), if_pos rfl, u64] at hself
  omega

end PerfHist

/-- After `perf_hist_init` with a linear scale, whatever has been added since, the value `val`
increments one counter: the one below the range iff it is below `min`, the one above iff it is at
least `max`, and else the one of its bin. -/
def SampleLands (size min max val : ℕ) : Prop :=
  ∀ fi vals, ∃ hist, perfHistAdds (perfHistInit size min max false fi) vals = some hist ∧
    ∃ i < size + 2, perfHistAdd hist val = some (hist.count i) ∧
      (i = histBoundl hist ↔ val < min) ∧ (i = histBoundr hist ↔ max ≤ val) ∧
      (i < size → ∀ k < size, hist.Covers k val ↔ k = i)

section Linear

variable {size min max val : ℕ} (hpos : 1 ≤ size) (hle : size ≤ 2 ^ 31 - 3) (hlt : min < max)
  (hmax : max < 2 ^ 64)
include hpos hle hlt hmax

/-- The table of the linear scale, whatever has been added. -/
lemma exists_linear_table (fi : ℕ → ℕ) (vals : List ℕ) :
    ∃ hist, perfHistAdds (perfHistInit size min max false fi) vals = some hist ∧
      hist.Contiguous ∧ hist.size = size ∧ (hist.binAt 0).min = min ∧
        (hist.binAt (size - 1)).max = min + (max - min) / size * size := by
  have hcontig := PerfHist.contiguous_linear fi hpos hle hlt hmax
  obtain ⟨-, hsz, -⟩ := PerfHist.perfHistInit_spec min max false fi hpos hle
  obtain ⟨hfirst, hlast⟩ := PerfHist.linear_range fi hpos hle hlt hmax
  obtain ⟨hist, hadds, -⟩ := PerfHist.perfHistAdds_total hcontig.toAllocated vals
  obtain ⟨hcontig', hsz', hends⟩ := PerfHist.ends_perfHistAdds hcontig hadds
  exact ⟨hist, hadds, hcontig', hsz'.trans hsz, (hends 0).1.trans hfirst,
    (hends (size - 1)).2.trans hlast⟩

/-- What is between the end of the last bin and `max` does not land where the range says. -/
lemma not_between_of_sampleLands (h : SampleLands size min max val) :
    val < min + (max - min) / size * size ∨ max ≤ val := by
  by_contra hbetween
  rw [not_or, not_lt, not_le] at hbetween
  obtain ⟨hist, hadds, i, hi, hadd, -, habove, -⟩ := h (fun _ => 0) []
  obtain ⟨hist', hadds', hcontig, hsz, -, hlast⟩ :=
    exists_linear_table hpos hle hlt hmax (fun _ => 0) []
  obtain rfl := Option.some.inj (hadds.symm.trans hadds')
  -- the search goes past the last bin
  obtain ⟨j, hadd', hsays⟩ := hcontig.perfHistAdd_says val
  have hj : j = size + 1 := hcontig.says_unique hsays
    (Or.inr (Or.inr ⟨by rw [hsz], by rw [hsz, hlast]; exact hbetween.1⟩))
  have hij := PerfHist.count_inj hcontig.toAllocated (by rw [hsz]; exact hi)
    (Option.some.inj (hadd.symm.trans hadd'))
  have hge : max ≤ val := habove.mp (by rw [histBoundr, hsz, u32_of_lt (by omega), hij, hj])
  omega

/-- Everything else does. -/
lemma sampleLands_of_not_between (h : val < min + (max - min) / size * size ∨ max ≤ val) :
    SampleLands size min max val := by
  intro fi vals
  obtain ⟨hist, hadds, hcontig, hsz, hfirst, hlast⟩ :=
    exists_linear_table hpos hle hlt hmax fi vals
  obtain ⟨i, hadd, hsays⟩ := hcontig.perfHistAdd_says val
  have hboundr : histBoundr hist = size + 1 := by rw [histBoundr, hsz, u32_of_lt (by omega)]
  have hend : min + (max - min) / size * size ≤ max := by
    have := Nat.div_mul_le_self (max - min) size
    omega
  refine ⟨hist, hadds, i, hsz ▸ hsays.lt, hadd, ?_⟩
  rw [histBoundl, hboundr, hsz]
  rcases hsays with ⟨hi, hcov⟩ | ⟨rfl, hbelow⟩ | ⟨rfl, habove⟩
  · -- the value is in a bin, hence between the first begin and the last end
    have h₁ := (hcontig.ends_mono (Nat.zero_le i) hi).1.trans hcov.1
    have h₂ := hcov.2.trans_le (hcontig.ends_mono (show i ≤ hist.size - 1 by omega) (by omega)).2
    rw [hfirst] at h₁
    rw [hsz, hlast] at h₂
    rw [hsz] at hi
    refine ⟨by omega, by omega, fun _ k hk => ⟨fun hck => ?_, fun hki => hki ▸ hcov⟩⟩
    exact hcontig.covers_unique (by omega) (by omega) hck hcov
  · rw [hfirst] at hbelow
    rw [hsz]
    exact ⟨by omega, by omega, fun hi => absurd hi (lt_irrefl _)⟩
  · rw [hsz, hlast] at habove
    rw [hsz]
    exact ⟨by omega, by omega, fun hi => by omega⟩

end Linear

/-- **A sample lands where the range says, exactly** when it is below the end of the last bin or
not below `max`: the bins end after a multiple of their width, and what is between that end and
`max` is counted as above the range. -/
theorem perf_hist_linear_iff {size min max val : ℕ} (hmin : 8 ≤ size) (hsize : size ≤ 1024)
    (hlt : min < max) (hmax : max < 2 ^ 64) :
    SampleLands size min max val ↔ val < min + (max - min) / size * size ∨ max ≤ val :=
  ⟨not_between_of_sampleLands (by omega) (by omega) hlt hmax,
    sampleLands_of_not_between (by omega) (by omega) hlt hmax⟩

/-- The theorem at the default run histogram, from 1 ms to 30 ms in 8 bins. -/
theorem perf_hist_linear_run : SampleLands 8 1000000 30000000 29999999 :=
  (perf_hist_linear_iff (by norm_num) (by norm_num) (by norm_num) (by norm_num)).mpr
    (Or.inl (by norm_num))

/-- With the default task histogram, from 20 μs to 143 μs in 16 bins, a sample of 142.995 μs is
counted as above the range. -/
theorem perf_hist_misses_range :
    ¬ ∀ size min max val, 8 ≤ size → size ≤ 1024 → min < max → max < 2 ^ 64 →
      SampleLands size min max val := by
  intro hall
  have hlands := hall 16 20000 143000 142995 (by norm_num) (by norm_num) (by norm_num) (by norm_num)
  have h := not_between_of_sampleLands (by norm_num) (by norm_num) (by norm_num) (by norm_num)
    hlands
  norm_num at h

end Mdb
