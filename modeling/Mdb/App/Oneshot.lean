import Mdb.App.KernelFrames
import Mdb.Tools.ImageHdr

/-!
The oneshot mode, `run_benchmark_mode` of `app/main.c`: one frame is drawn into the surface, and
`surface_save_image_hdr` saves it.

`oneshot_image` follows a pixel from the threads to a reader of the file.
-/

namespace Mdb

/-! ### The values of a frame -/

section Oneshot

variable {n : ℕ} {F C : Type*}

end Oneshot

end Mdb
