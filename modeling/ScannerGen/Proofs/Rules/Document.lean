import ScannerGen.Proofs.Json.Checked
import ScannerGen.Proofs.Text.Utf8
import ScannerGen.Rules.Document

/-!
# What documents hold

A document that is read has its options in the order of their names and ids of 32 bits.

* `Json.ascending_object` — the entries of an object are in the order of their keys.
* `Document.wellFormed_of_read` — what holds of every document that is read.
-/

namespace ScannerGen

/-! ## Objects -/

namespace Json

/-- The keys of entries are different and in ascending order. -/
def Ascending (entries : List (String × Value)) : Prop :=
  entries.Pairwise fun entry other => entry.1 < other.1

theorem mem_insertEntry {key : String} {value : Value} {entries : List (String × Value)}
    {entry : String × Value} (member : entry ∈ insertEntry key value entries) :
    entry = (key, value) ∨ entry ∈ entries := by
  induction entries with
  | nil => exact .inl (List.mem_singleton.1 member)
  | cons other rest ih =>
    rw [insertEntry] at member
    split_ifs at member with before same
    · exact List.mem_cons.1 member
    · exact (List.mem_cons.1 member).imp_right (List.mem_cons_of_mem _)
    · rcases List.mem_cons.1 member with rfl | inRest
      · exact .inr List.mem_cons_self
      · exact (ih inRest).imp_right (List.mem_cons_of_mem _)

theorem ascending_insertEntry {key : String} {value : Value} {entries : List (String × Value)}
    (ascending : Ascending entries) : Ascending (insertEntry key value entries) := by
  induction entries with
  | nil => exact List.pairwise_singleton _ _
  | cons other rest ih =>
    obtain ⟨least, others⟩ := List.pairwise_cons.1 ascending
    rw [insertEntry]
    split_ifs with before same
    · -- The new key comes before the first one and so before all others.
      refine List.pairwise_cons.2 ⟨List.forall_mem_cons.2 ⟨before, fun entry member => ?_⟩, ascending⟩
      exact before.trans (least entry member)
    · subst same
      exact List.pairwise_cons.2 ⟨least, others⟩
    · refine List.pairwise_cons.2 ⟨fun entry member => ?_, ih others⟩
      rcases mem_insertEntry member with rfl | inRest
      · exact lt_of_le_of_ne (not_lt.1 before) (Ne.symm same)
      · exact least entry inRest

theorem ascending_entries {item : Reader Value} {fuel : Nat} {first : Bool}
    {sofar entries : List (String × Value)} {text rest : List UInt8} (ascending : Ascending sofar)
    (read : Json.entries item fuel first sofar text = .ok (entries, rest)) : Ascending entries := by
  induction fuel generalizing first sofar text with
  | zero =>
    cases read
    exact ascending
  | succ fuel ih =>
    rw [Json.entries] at read
    obtain ⟨next, _, read⟩ := exists_of_bind_eq_ok read
    cases next with
    | none =>
      cases read
      exact ascending
    | some start =>
      obtain ⟨⟨key, more⟩, _, read⟩ := exists_of_bind_eq_ok read
      obtain ⟨_, _, read⟩ := exists_of_bind_eq_ok read
      obtain ⟨⟨value, last⟩, _, read⟩ := exists_of_bind_eq_ok read
      exact ih (ascending_insertEntry ascending) read

theorem ascending_object {remaining : Nat} {text rest : List UInt8}
    {entries : List (String × Value)} (read : object remaining text = .ok (entries, rest)) :
    Ascending entries := by
  simp only [object, entered] at read
  split at read
  · cases read
  · split at read
    · split at read
      · cases read
      · obtain ⟨⟨items, more⟩, given, read⟩ := exists_of_bind_eq_ok read
        obtain ⟨_, _, read⟩ := exists_of_bind_eq_ok read
        cases read
        exact ascending_entries .nil given
    · cases read

theorem le_of_nullable {limit : Nat} {type : String} {text rest : List UInt8} {number : Option Nat}
    (read : nullable (natural type limit) text = .ok (number, rest)) : ∀ n ∈ number, n ≤ limit := by
  simp only [nullable] at read
  split at read
  · obtain ⟨_, _, same⟩ := exists_of_map_eq_ok read
    cases same
    exact nofun
  · obtain ⟨⟨value, more⟩, given, same⟩ := exists_of_map_eq_ok read
    cases same
    intro n given'
    rw [← Option.some.inj given']
    exact le_of_natural given

end Json

/-! ## Documents -/

namespace Rules.Document

theorem store_eq_ok {α σ : Type} {read : Json.Reader α} {put : α → σ → σ} {state state' : σ}
    {text rest : List UInt8} (stored : store read put state text = .ok (state', rest)) :
    ∃ value, read text = .ok (value, rest) ∧ state' = put value state := by
  obtain ⟨⟨value, more⟩, given, same⟩ := exists_of_map_eq_ok stored
  cases same
  exact ⟨value, given, rfl⟩

/-- Ids fit into 32 bits. -/
def HasWordId (d : Declaration) : Prop := ∀ id ∈ d.id, id ≤ 0xffffffff

theorem tokenShape_keeps : tokenShape.Keeps HasWordId := by
  intro field member remaining d text d' rest before read
  simp only [tokenShape, List.mem_cons, List.not_mem_nil, or_false] at member
  rcases member with rfl | rfl | rfl | rfl | rfl | rfl <;> simp only at read <;>
    obtain ⟨value, given, rfl⟩ := store_eq_ok read
  case inr.inr.inr.inl => exact Json.le_of_nullable given
  all_goals exact before

/-- The options of a document are in the order of their names, and its ids fit into 32 bits. -/
structure WellFormed (doc : Document) : Prop where
  ascending : Json.Ascending doc.options
  hasWordId : ∀ d ∈ doc.tokens, HasWordId d

theorem shape_keeps : shape.Keeps WellFormed := by
  intro field member remaining doc text doc' rest before read
  simp only [shape, List.mem_cons, List.not_mem_nil, or_false] at member
  rcases member with rfl | rfl | rfl <;> simp only at read <;>
    obtain ⟨value, given, rfl⟩ := store_eq_ok read
  · exact { before with ascending := Json.ascending_object given }
  · exact { before with }
  · have noId : HasWordId (.ofCategory .unknown none .api) := nofun
    exact { before with
      hasWordId := Json.forall_mem_of_listOf (fun _ _ _ _ item => tokenShape_keeps.read noId item) given }

theorem wellFormed_of_read {text : String} {doc : Document} (accepted : read text = .ok doc) :
    doc.WellFormed := by
  obtain ⟨rest, given⟩ := Json.exists_of_document accepted
  have begun : empty.WellFormed :=
    ⟨List.Pairwise.nil, fun d absent => absurd absent List.not_mem_nil⟩
  exact shape_keeps.read begun given

end Rules.Document

end ScannerGen
