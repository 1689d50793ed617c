/-
# `AdvVcom.Lib.Frames` — cutting a stream into frames

A frame is a header of `hdr` items and as many items behind it as `body` reads from
the header.  `cut` takes complete frames off the front of a stream for as long as there
are any; what is left is the beginning of a frame.

**Proved here.**

    frames in front of a stream are the first ones of its cut   (`cut_flatten`)
-/
import Mathlib.Data.List.Basic

namespace Lib.Frames

variable {α : Type} (hdr : Nat) (body : List α → Nat)

/-- A complete frame. -/
def IsFrame (f : List α) : Prop := hdr ≤ f.length ∧ f.length = hdr + body (f.take hdr)

/-- The complete frames of a stream, in order. -/
def cut (bs : List α) : List (List α) :=
  if _h : 0 < hdr ∧ hdr ≤ bs.length ∧ hdr + body (bs.take hdr) ≤ bs.length then
    bs.take (hdr + body (bs.take hdr)) :: cut (bs.drop (hdr + body (bs.take hdr)))
  else []
termination_by bs.length
decreasing_by
  rw [List.length_drop]
  omega

variable {hdr body} {f : List α}

theorem cut_append (hpos : 0 < hdr) (hf : IsFrame hdr body f) (rest : List α) :
    cut hdr body (f ++ rest) = f :: cut hdr body rest := by
  obtain ⟨hlong, hlen⟩ := hf
  have htake : (f ++ rest).take hdr = f.take hdr := List.take_append_of_le_length hlong
  have hcond : 0 < hdr ∧ hdr ≤ (f ++ rest).length ∧
      hdr + body ((f ++ rest).take hdr) ≤ (f ++ rest).length := by
    rw [htake, ← hlen, List.length_append]
    omega
  rw [cut, dif_pos hcond, htake, ← hlen, List.take_left, List.drop_left]

theorem cut_flatten (hpos : 0 < hdr) {fs : List (List α)} (hfs : ∀ f ∈ fs, IsFrame hdr body f)
    (rest : List α) : cut hdr body (fs.flatten ++ rest) = fs ++ cut hdr body rest := by
  induction fs with
  | nil => rfl
  | cons f fs ih =>
      rw [List.flatten_cons, List.append_assoc, cut_append hpos (hfs f (by simp)),
        ih fun g hg => hfs g (by simp [hg]), List.cons_append]

end Lib.Frames
