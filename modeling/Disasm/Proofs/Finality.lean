import Disasm.Proofs.Verdicts

/-!
# Verdicts are final

A text is read line by line up to the line that decides the result.

1. Lines that decide do so whatever stands behind them. Only where the end of the image is missing are
   they open to further lines (`decodeLines_append_of_decided`).
2. The lines in front of the one that an error names are blank, or they hold the data records of one
   image (`Passes.intact`).
3. The line itself is not blank. It is no record, a record of another type, or a data record that starts
   elsewhere than at the end of the image (`fault_of_offends`).
-/

namespace Disasm.IntelHex

/-! ## Text behind the verdict -/

/-- Lines behind lines that decide the result are not read. -/
theorem decodeLines_append_of_decided {lines : List (List Char)} {line : Nat} {block : Option Block}
    (h : decodeLines line block lines ≠ .error .missingEndOfFile) (rest : List (List Char)) :
    decodeLines line block (lines ++ rest) = decodeLines line block lines := by
  rcases decodeLines_append lines line block with ⟨verdict, hverdict⟩ | ⟨next, hnext⟩
  · rw [hverdict, ← hverdict [], List.append_nil]
  · -- Lines that leave the decision to others end without one.
    have hopen : decodeLines line block (lines ++ []) = .error .missingEndOfFile := hnext []
    rw [List.append_nil] at hopen
    exact absurd hopen h

theorem splitOn_append_line (text more : String) :
    (text ++ "\n" ++ more).toList.splitOn '\n' =
      text.toList.splitOn '\n' ++ more.toList.splitOn '\n' := by
  have htext : (text ++ "\n" ++ more).toList = text.toList ++ '\n' :: more.toList := by
    simp [String.toList_append]
  rw [htext, List.splitOn_append_cons_self]

/-! ## The first offence -/

def Error.line? : Error → Option Nat
  | .imageTooLarge _ | .missingEndOfFile => none
  | .malformedRecord line _ | .checksumMismatch line _ _ | .unsupportedType line _
  | .notContiguous line _ _ => some line

theorem Error.line?_ofRecord (line : Nat) (cause : Record.Error) :
    (Error.ofRecord line cause).line? = some line := by
  cases cause <;> rfl

/-- Where the image of records ends. -/
def imageEnd (records : List Record) : Nat :=
  (firstAddress records).toNat + (payloads records).length

/-- Lines that are blank or hold data records, of which each starts where the one before ends. -/
structure Intact (lines : List (List Char)) (records : List Record) : Prop where
  spelled : List.Forall₂ IsRecord (written lines) records
  isData : ∀ record ∈ records, record.type = Record.dataType
  placed : Follow (firstAddress records).toNat records

/-- What is wrong with the text of line number `line` behind lines with some data records. -/
inductive Fault (line : Nat) (records : List Record) (text : List Char) : Error → Prop where
  | invalid (cause : Record.Error) (invalid : ∀ record, ¬ IsRecord text record) :
      Fault line records text (.ofRecord line cause)
  | unsupported {record : Record} (read : IsRecord text record)
      (notData : record.type ≠ Record.dataType) (notEnd : record.type ≠ Record.endType) :
      Fault line records text (.unsupportedType line record.type)
  /-- Only the first record may start anywhere. -/
  | apart {record : Record} (read : IsRecord text record) (type : record.type = Record.dataType)
      (later : records ≠ []) (apart : record.address.toNat ≠ imageEnd records) :
      Fault line records text (.notContiguous line record.address (imageEnd records))

/-- The line with the number `line`, counted from 1, is not blank and at fault, and the lines in front of
it are intact. -/
def FirstOffence (lines : List (List Char)) (line : Nat) (error : Error) : Prop :=
  ∃ before text after records, lines = before ++ text :: after ∧ line = before.length + 1 ∧
    Text.trim text ≠ [] ∧ Intact before records ∧ Fault line records (Text.trim text) error

section Passes

variable {lines : List (List Char)} {records : List Record} {next : Option Block}

theorem Passes.intact (h : Passes none lines records next) : Intact lines records where
  spelled := h.isRecord
  isData := h.isData
  placed := ((joins_none_iff _ _).mp h.joins).1

/-- A record that is refused for its start stands behind others, away from their end. -/
theorem Passes.expected_eq (h : Passes none lines records next) {record : Record}
    (hplace : record.address.toNat ≠ (next.getD ⟨record.address, #[]⟩).base.toNat +
      (next.getD ⟨record.address, #[]⟩).data.size) :
    records ≠ [] ∧ (next.getD ⟨record.address, #[]⟩).base.toNat +
      (next.getD ⟨record.address, #[]⟩).data.size = imageEnd records := by
  cases next with
  | none => exact absurd rfl hplace
  | some last =>
    have hbase : last.base = firstAddress records := congrArg Image.base h.image_eq
    have hdata : last.data.toList = payloads records := congrArg Image.data h.image_eq
    constructor
    · intro hnil
      exact Option.some_ne_none last (h.eq_none_iff.mpr ⟨rfl, hnil⟩)
    · rw [Option.getD_some, imageEnd, hbase, ← hdata, Array.length_toList]

theorem fault_of_offends {line number : Nat} {text : List Char} {error : Error}
    (hpassed : Passes none lines records next) (h : Offends line next text error)
    (hnumber : error.line? = some number) : number = line ∧ Fault line records text error := by
  cases h with
  | @malformed cause hparse =>
    rw [Error.line?_ofRecord, Option.some.injEq] at hnumber
    refine ⟨hnumber.symm, .invalid cause fun record hrecord => ?_⟩
    rw [parse_eq_ok_iff_isRecord.mpr hrecord] at hparse
    cases hparse
  | unsupported hread hdata hend =>
    exact ⟨(Option.some.inj hnumber).symm, .unsupported hread hdata hend⟩
  | misplaced hread htype hstep =>
    rcases extend_eq_error hstep with ⟨-, rfl⟩ | ⟨_, rfl, hplace, rfl⟩
    · cases hnumber
    · obtain ⟨hlater, hend⟩ := hpassed.expected_eq hplace
      rw [hend] at hplace ⊢
      exact ⟨(Option.some.inj hnumber).symm, .apart hread htype hlater hplace⟩

end Passes

/-- An error that names a line names the first one that offends. -/
theorem firstOffence_of_decode {text : String} {error : Error} {line : Nat}
    (h : decode text = .error error) (hline : error.line? = some line) :
    FirstOffence (text.toList.splitOn '\n') line error := by
  rw [decode] at h
  generalize text.toList.splitOn '\n' = lines at h ⊢
  cases fails_of_decodeLines h with
  | unfinished => cases hline
  | @offence before after offender records next _ hpassed hwritten hoffends =>
    obtain ⟨rfl, hfault⟩ := fault_of_offends hpassed hoffends hline
    rw [Nat.add_comm] at hfault ⊢
    exact ⟨before, offender, after, records, rfl, rfl, hwritten, hpassed.intact, hfault⟩

/-! ## Verdicts -/

/-- Whatever is decided about a text stays decided when lines are put behind it. An error that names a
line names the first one that offends, blank lines counted. -/
theorem decode_decided (text : String) :
    (decode text ≠ .error .missingEndOfFile →
      ∀ more, decode (text ++ "\n" ++ more) = decode text) ∧
    ∀ error line, decode text = .error error → error.line? = some line →
      FirstOffence (text.toList.splitOn '\n') line error := by
  constructor
  · intro h more
    rw [decode, splitOn_append_line]
    exact decodeLines_append_of_decided h (more.toList.splitOn '\n')
  · intro error line h hline
    exact firstOffence_of_decode h hline

/-- A record away from the end of the image, behind a line that ends with a carriage return and a blank
one. The end of the image below it comes too late. -/
theorem decode_decided_apart :
    decode ":020000000102FB\r\n\n :020004000304F3" = .error (.notContiguous 3 0x0004 2) ∧
      decode (":020000000102FB\r\n\n :020004000304F3" ++ "\n" ++ ":00000001FF") =
        .error (.notContiguous 3 0x0004 2) ∧
      FirstOffence (":020000000102FB\r\n\n :020004000304F3".toList.splitOn '\n') 3
        (.notContiguous 3 0x0004 2) := by
  have h : decode ":020000000102FB\r\n\n :020004000304F3" = .error (.notContiguous 3 0x0004 2) := by
    decide +kernel
  have hdecided : decode ":020000000102FB\r\n\n :020004000304F3" ≠ .error .missingEndOfFile := by
    rw [h]
    decide
  have hmore := (decode_decided _).1 hdecided ":00000001FF"
  exact ⟨h, hmore.trans h, (decode_decided _).2 _ 3 h rfl⟩

end Disasm.IntelHex
