import Mathlib.Data.List.Basic
import Disasm.Proofs.Spelling

/-!
# What spelling keeps

An instruction may be put together by hand, with any mnemonic and any operands.

1. Intel spelling leaves operands out and respells the others. It names the target exactly if the old
   spelling does, and it has no more operands (`Intel.spelling?_keeps`, from one lemma for each family
   of instructions).
2. An instruction is spelled anew exactly if it has an Intel spelling that is not its own
   (`toIntel?_eq_none_iff`).
3. Then its old mnemonic is noted and its old text is added to the comment, which may be empty and
   still counts as one. All else stays as it was (`spelledAnew_of_toIntel?`).
-/

namespace Disasm

/-- The spelling names the target exactly if the operands do, and it has no more operands. -/
def Spelling.Keeps (spelling : Spelling) (operands : List Operand) : Prop :=
  (.target ∈ spelling.operands ↔ .target ∈ operands) ∧ spelling.operands.length ≤ operands.length

/-- Fixed text in front of the operands may be left out. -/
theorem Spelling.Keeps.cons_text {spelling : Spelling} {operands : List Operand}
    (h : spelling.Keeps operands) (fixed : String) : spelling.Keeps (.text fixed :: operands) := by
  obtain ⟨htarget, hlength⟩ := h
  refine ⟨?_, Nat.le_succ_of_le hlength⟩
  rw [htarget, List.mem_cons]
  exact ⟨.inr, fun hmem => hmem.resolve_left fun heq => nomatch heq⟩

/-! ## Families of instructions -/

namespace Intel

section Keeps

variable (operands : List Operand)

theorem arithmeticWith?_keeps (forms : String × String) (source : Operand) :
    ∀ spelling ∈ arithmeticWith? forms source, spelling.Keeps [source] := by
  unfold arithmeticWith?
  split
  case h_1 name => split <;> simp [Spelling.Keeps]
  all_goals simp [Spelling.Keeps]

theorem arithmeticSpelling?_keeps (mnemonic : String) (forms : String × String) :
    ∀ spelling ∈ arithmeticSpelling? mnemonic forms operands, spelling.Keeps operands := by
  unfold arithmeticSpelling?
  split
  case h_1 source =>
    -- The accumulator goes, and the source stays.
    split
    · intro spelling h
      exact (arithmeticWith?_keeps forms source spelling h).cons_text "A"
    · simp
  case h_2 source =>
    split
    · simp
    · exact arithmeticWith?_keeps forms source
  case h_3 pair => split <;> simp [Spelling.Keeps]
  case h_4 => simp

theorem load?_keeps : ∀ spelling ∈ load? operands, spelling.Keeps operands := by
  unfold load?
  split
  case h_6 destination source => split <;> simp [Spelling.Keeps]
  all_goals simp [Spelling.Keeps]

theorem exchange?_keeps : ∀ spelling ∈ exchange? operands, spelling.Keeps operands := by
  unfold exchange?
  split
  all_goals simp [Spelling.Keeps]

theorem jump?_keeps : ∀ spelling ∈ jump? operands, spelling.Keeps operands := by
  unfold jump?
  split
  all_goals simp [Spelling.Keeps]

theorem call?_keeps : ∀ spelling ∈ call? operands, spelling.Keeps operands := by
  unfold call?
  split
  all_goals simp [Spelling.Keeps]

theorem return?_keeps : ∀ spelling ∈ return? operands, spelling.Keeps operands := by
  unfold return?
  split
  all_goals simp [Spelling.Keeps]

/-- A restart is numbered, and its vector is left out. That operand is no target. -/
theorem restart?_keeps (vector : Option Address) :
    ∀ spelling ∈ restart? vector operands, spelling.Keeps operands := by
  unfold restart?
  split
  all_goals simp [Spelling.Keeps]

theorem count?_keeps (single pair : String) :
    ∀ spelling ∈ count? single pair operands, spelling.Keeps operands := by
  unfold count?
  split
  all_goals simp [Spelling.Keeps]

theorem stack?_keeps (mnemonic : String) :
    ∀ spelling ∈ stack? mnemonic operands, spelling.Keeps operands := by
  unfold stack?
  split
  all_goals simp [Spelling.Keeps]

theorem input?_keeps : ∀ spelling ∈ input? operands, spelling.Keeps operands := by
  unfold input?
  split
  all_goals simp [Spelling.Keeps]

theorem output?_keeps : ∀ spelling ∈ output? operands, spelling.Keeps operands := by
  unfold output?
  split
  all_goals simp [Spelling.Keeps]

end Keeps

theorem otherSpelling?_keeps (instruction : Instruction) :
    ∀ spelling ∈ otherSpelling? instruction, spelling.Keeps instruction.operands := by
  unfold otherSpelling?
  split
  · exact load?_keeps _
  · exact exchange?_keeps _
  · exact jump?_keeps _
  · exact call?_keeps _
  · exact return?_keeps _
  · exact restart?_keeps _ _
  · exact count?_keeps _ _ _
  · exact count?_keeps _ _ _
  · exact stack?_keeps _ _
  · exact stack?_keeps _ _
  · exact input?_keeps _
  · exact output?_keeps _
  · simp

/-- Whatever the instruction is, its spelling keeps the target and adds no operand. -/
theorem spelling?_keeps (instruction : Instruction) :
    ∀ spelling ∈ spelling? instruction, spelling.Keeps instruction.operands := by
  unfold spelling?
  split
  case h_1 mnemonic _ =>
    split
    case isTrue hempty =>
      rw [List.isEmpty_iff.mp hempty]
      simp [Spelling.Keeps]
    case isFalse => simp
  case h_2 forms _ _ => exact arithmeticSpelling?_keeps _ _ _
  case h_3 => exact otherSpelling?_keeps instruction

end Intel

/-! ## Instructions -/

namespace Instruction

/-- What an instruction is when it has been spelled anew. -/
structure SpelledAnew (old new : Instruction) : Prop where
  /-- Nothing but the spelling and the two remarks on it differs. -/
  frame : new =
    { old with
      mnemonic := new.mnemonic
      operands := new.operands
      comment := new.comment
      z80Mnemonic := new.z80Mnemonic }
  /-- The spelling does differ. -/
  differs : new.mnemonic ≠ old.mnemonic ∨ new.operands ≠ old.operands
  z80Mnemonic_eq : new.z80Mnemonic = some old.mnemonic
  /-- The old text stands behind the old comment, if there was one. -/
  comment_eq : new.comment = some (old.comment.elim "" (· ++ "; ") ++ ("Z80: " ++ old.text))
  target_iff : .target ∈ new.operands ↔ .target ∈ old.operands
  length_le : new.operands.length ≤ old.operands.length

theorem comment_addComment (instruction : Instruction) (text : String) :
    (instruction.addComment text).comment =
      some (instruction.comment.elim "" (· ++ "; ") ++ text) := by
  unfold addComment
  cases instruction.comment with
  | none => simp
  | some comment => rfl

section ToIntel

variable {instruction new : Instruction}

theorem toIntel?_eq_none_iff :
    instruction.toIntel? = none ↔
      ∀ spelling ∈ Intel.spelling? instruction, spelling = instruction.spelling := by
  unfold toIntel?
  rcases Intel.spelling? instruction with _ | spelling
  · simp
  · simp [Instruction.spelling]

theorem spelledAnew_of_toIntel? (h : instruction.toIntel? = some new) :
    Intel.spelling? instruction = some new.spelling ∧ instruction.SpelledAnew new := by
  unfold toIntel? at h
  split at h
  case h_1 => cases h
  case h_2 spelling hspelling =>
    split at h
    case isTrue => cases h
    case isFalse hdiffers =>
      obtain ⟨htarget, hlength⟩ := Intel.spelling?_keeps instruction spelling hspelling
      obtain rfl := Option.some.inj h
      refine ⟨hspelling, ?_⟩
      constructor
      case frame => rfl
      case differs =>
        refine not_and_or.mp fun ⟨hmnemonic, hoperands⟩ => hdiffers ?_
        exact congrArg₂ Spelling.mk hmnemonic hoperands
      case z80Mnemonic_eq => rfl
      case comment_eq => exact comment_addComment _ _
      case target_iff => exact htarget
      case length_le => exact hlength

end ToIntel

/-- Every instruction is left as it is, or it is spelled anew. It is left as it is exactly if it has no
spelling but its own. -/
theorem toIntel_eq_or_spelledAnew (instruction : Instruction) :
    (instruction.toIntel? = none ∧ instruction.toIntel = instruction ∧
      ∀ spelling, Intel.spelling? instruction = some spelling → spelling = instruction.spelling) ∨
    (instruction.toIntel? = some instruction.toIntel ∧
      Intel.spelling? instruction = some instruction.toIntel.spelling ∧
      instruction.SpelledAnew instruction.toIntel) := by
  rcases h : instruction.toIntel? with _ | new
  · have hsame : instruction.toIntel = instruction := by rw [toIntel, h, Option.getD_none]
    exact .inl ⟨rfl, hsame, toIntel?_eq_none_iff.mp h⟩
  · have hnew : instruction.toIntel = new := by rw [toIntel, h, Option.getD_some]
    rw [hnew]
    exact .inr ⟨rfl, spelledAnew_of_toIntel? h⟩

/-- An empty comment is continued like any other, and a restart keeps its target. -/
example :
    let restart : Instruction :=
      { mnemonic := "RST", operands := [.vector], bytes := [0xFF], comment := some "",
        target := some (.absolute 0x38), targetLabel := some "S_0038" }
    restart.toIntel?.map (fun new => (new.text, new.comment, new.target)) =
      some ("RST 7", some "; Z80: RST S_0038", some (.absolute 0x38)) := by
  decide +kernel

end Instruction

end Disasm
