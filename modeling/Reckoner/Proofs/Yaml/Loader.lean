import Reckoner.Proofs.Yaml.Keys
import Reckoner.Yaml.Loader

/-!
# Laws of loaders

Contexts that are described in files rest on two laws of the loader of the files: no mapping of a
document has a name twice, and from a text comes a document, or the text is found malformed. The
loader that reads whole texts has the first one, and the second one wherever building the document
does not go wrong otherwise.
-/
namespace Reckoner.Yaml.Loader

variable {load : Loader} {bytes : ByteArray} {D : Document} {message : String}

/-- A loader gives only documents in which every mapping has each name once. -/
def NamesOnce (load : Loader) : Prop := ∀ bytes D, load bytes = .ok D → D.NamesOnce

/-- A loader gives a document for the bytes or finds their text malformed, or decoding them fails. A
loader that finds text malformed before the bytes that are no text does not get to them. -/
structure Reads (load : Loader) (bytes : ByteArray) : Prop where
  not_escaped : ∀ e, load bytes ≠ .error (.escaped e)
  undecodable : ∀ message, load bytes = .error (.undecodable message) →
    Text.Utf8.decode bytes = .error message

theorem Reads.of_eq_ok (h : load bytes = .ok D) : load.Reads bytes := by
  constructor <;> simp [h]

theorem whole_eq_ok_iff : whole bytes = .ok D ↔
    ∃ text, Text.Utf8.decode bytes = .ok text ∧ Document.ofText text = .ok D := by
  unfold whole
  cases Text.Utf8.decode bytes with
  | error => simp
  | ok text => cases h : Document.ofText text <;> simp [h, Except.mapError]

theorem whole_eq_error_iff {u : Unread} : whole bytes = .error u ↔
    (∃ message, Text.Utf8.decode bytes = .error message ∧ .undecodable message = u) ∨
    ∃ text d, Text.Utf8.decode bytes = .ok text ∧ Document.ofText text = .error d ∧
      Unread.ofDefect d = u := by
  unfold whole
  cases Text.Utf8.decode bytes with
  | error => simp
  | ok text => cases h : Document.ofText text <;> simp [h, Except.mapError]

theorem whole_eq_undecodable_iff :
    whole bytes = .error (.undecodable message) ↔ Text.Utf8.decode bytes = .error message := by
  have hdefect (d : Defect) : Unread.ofDefect d ≠ .undecodable message := by cases d <;> nofun
  simp [whole_eq_error_iff, hdefect]

theorem whole_eq_escaped_iff {e : Failure} : whole bytes = .error (.escaped e) ↔
    ∃ text, Text.Utf8.decode bytes = .ok text ∧ Document.ofText text = .error (.escaped e) := by
  have hdefect (d : Defect) : Unread.ofDefect d = .escaped e ↔ d = .escaped e := by
    cases d <;> simp [Unread.ofDefect]
  simp [whole_eq_error_iff, hdefect]

theorem namesOnce_whole : whole.NamesOnce := by
  intro bytes D h
  obtain ⟨text, -, htext⟩ := whole_eq_ok_iff.1 h
  exact Document.namesOnce_ofText htext

theorem reads_whole_iff : whole.Reads bytes ↔
    ∀ text e, Text.Utf8.decode bytes = .ok text → Document.ofText text ≠ .error (.escaped e) := by
  constructor
  · intro h text e hdecode htext
    exact h.not_escaped e (whole_eq_escaped_iff.2 ⟨text, hdecode, htext⟩)
  · intro h
    refine ⟨fun e he => ?_, fun message => whole_eq_undecodable_iff.1⟩
    obtain ⟨text, hdecode, htext⟩ := whole_eq_escaped_iff.1 he
    exact h text e hdecode htext

end Reckoner.Yaml.Loader
