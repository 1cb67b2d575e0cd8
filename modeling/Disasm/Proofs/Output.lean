import Mathlib.Logic.Basic
import Disasm.Settings
import Disasm.Proofs.IntelHex
import Disasm.Proofs.Result

/-!
# Which images have an output

A listing, a source and a JSON report exist for the images that fit. Intel HEX is read back before it is
given out. An image with bytes is read back as itself, so again nothing but the size decides. An empty
image has no record that could hold its origin: it is read back at zero, and at any other origin the
output is held back (`renderIntelHex_of_fits`).
-/

namespace Disasm.Settings

open IntelHex

/-- The image has no byte whose address would tell its origin in Intel HEX. -/
def LosesOrigin (settings : Settings) (image : List UInt8) : Prop :=
  settings.format = .intelHex ∧ image = [] ∧ settings.origin ≠ 0

variable {settings : Settings} {image : List UInt8}

/-! ## Intel HEX -/

/-- Only an empty image does not read back as itself. -/
theorem readBack_eq_iff (origin : Address) (image : List UInt8) :
    (if image = [] then .empty else ⟨origin, image⟩ : Image) = ⟨origin, image⟩ ↔
      ¬ (image = [] ∧ origin ≠ 0) := by
  by_cases hempty : image = []
  · simp [hempty, Image.empty, eq_comm]
  · simp [hempty]

theorem renderIntelHex_of_fits (fits : settings.origin.toNat + image.length ≤ addressSpace) :
    ∃ text, encode ⟨settings.origin, image⟩ = .ok text ∧
      settings.renderIntelHex image =
        if image = [] ∧ settings.origin ≠ 0 then .error .notReproduced else .ok text := by
  have hspan : (⟨settings.origin, image⟩ : Image).span.Fits := fits
  obtain ⟨text, hencode, hdecode⟩ := exists_encode_of_fits hspan
  refine ⟨text, hencode, ?_⟩
  simp only [renderIntelHex, hencode, hdecode, readBack_eq_iff, ite_not]

theorem renderIntelHex_of_large (large : addressSpace < settings.origin.toNat + image.length) :
    settings.renderIntelHex image =
      .error (.intelHex (.imageTooLarge ⟨settings.origin, image.length⟩)) := by
  have hspan : ¬ (⟨settings.origin, image⟩ : Image).span.Fits := Nat.not_le.mpr large
  simp only [renderIntelHex, encode, if_neg hspan]
  rfl

/-! ## All formats -/

theorem render_of_fits (fits : settings.origin.toNat + image.length ≤ addressSpace) :
    (settings.LosesOrigin image ∧ settings.render image = .error .notReproduced) ∨
      (¬ settings.LosesOrigin image ∧ ∃ output, settings.render image = .ok output ∧
        (settings.format = .intelHex → encode ⟨settings.origin, image⟩ = .ok output)) := by
  unfold render LosesOrigin
  by_cases hformat : settings.format = .intelHex
  · obtain ⟨text, hencode, hrender⟩ := renderIntelHex_of_fits fits
    rw [if_pos hformat, hrender]
    by_cases hlost : image = [] ∧ settings.origin ≠ 0
    · exact .inl ⟨⟨hformat, hlost⟩, if_pos hlost⟩
    · exact .inr ⟨fun h => hlost h.2, text, if_neg hlost, fun _ => hencode⟩
  · rw [if_neg hformat, disassemble_eq_ok settings.architecture fits]
    exact .inr ⟨fun h => hformat h.1, _, rfl, fun h => absurd h hformat⟩

theorem render_of_large (large : addressSpace < settings.origin.toNat + image.length) :
    settings.render image = .error (.intelHex (.imageTooLarge ⟨settings.origin, image.length⟩)) ∨
      settings.render image = .error (.disassembly ⟨⟨settings.origin, image.length⟩⟩) := by
  unfold render
  by_cases hformat : settings.format = .intelHex
  · rw [if_pos hformat]
    exact .inl (renderIntelHex_of_large large)
  · rw [if_neg hformat, disassemble_eq_error settings.architecture large]
    exact .inr rfl

/-- In every format the images that fit have an output, but for an empty image whose origin is lost
in Intel HEX. Intel HEX is given out as it is written, and it is held back for that one reason. -/
theorem render_eq_ok_iff_fits (settings : Settings) (image : List UInt8) :
    ((∃ output, settings.render image = .ok output) ↔
      settings.origin.toNat + image.length ≤ addressSpace ∧ ¬ settings.LosesOrigin image) ∧
    (settings.format = .intelHex → ∀ output, settings.render image = .ok output →
      encode ⟨settings.origin, image⟩ = .ok output) ∧
    (settings.render image = .error .notReproduced ↔ settings.LosesOrigin image) := by
  by_cases fits : settings.origin.toNat + image.length ≤ addressSpace
  · rcases render_of_fits fits with ⟨hlost, hrender⟩ | ⟨hkept, output, hrender, hintel⟩
    · simp [hrender, hlost]
    · refine ⟨?_, fun hformat other hother => ?_, ?_⟩
      · exact iff_of_true ⟨output, hrender⟩ ⟨fits, hkept⟩
      · rw [hrender, Except.ok.injEq] at hother
        rw [← hother]
        exact hintel hformat
      · rw [hrender]
        exact iff_of_false (fun h => by cases h) hkept
  · have hkept : ¬ settings.LosesOrigin image := by
      rintro ⟨-, rfl, -⟩
      exact fits (Nat.le_of_lt settings.origin.toNat_lt)
    rcases render_of_large (Nat.lt_of_not_le fits) with hrender | hrender
    · simp [hrender, fits, hkept]
    · simp [hrender, fits, hkept]

/-- The empty image at address 1 fits, has a listing, and has no Intel HEX. -/
theorem render_empty_at_one :
    (1 : Address).toNat + ([] : List UInt8).length ≤ addressSpace ∧
      (∃ output, (⟨.z80, 1, .listing, {}⟩ : Settings).render [] = .ok output) ∧
      encode ⟨1, []⟩ = .ok ":00000001FF\n" ∧
      (⟨.z80, 1, .intelHex, {}⟩ : Settings).render [] = .error .notReproduced := by
  refine ⟨by decide, ⟨_, rfl⟩, ?_, ?_⟩
  · decide +kernel
  · decide +kernel

end Disasm.Settings
