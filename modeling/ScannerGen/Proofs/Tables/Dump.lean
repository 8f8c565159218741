import ScannerGen.Proofs.Automaton.Order
import ScannerGen.Proofs.Json.Checked
import ScannerGen.Proofs.Json.Written
import ScannerGen.Proofs.Scan.LongestMatch
import ScannerGen.Tables.Dump

/-!
# Dumps of tables

A dump gives back the tables that were written, and what a dump gives can be written again.

* `Consistent`, `Fits` — what tables are like that survive being written and read.
* `load_dump` — the reader takes the text of a dump apart into the numbers that were written.
* `fits_of_load` — the reader gives no other tables than such.
* `consistent_ofDfa`, `fits_ofDfa` — the tables of an automaton are such.
* `load_dump_roundTrip` — the whole way there and back.
-/

namespace ScannerGen.Tables

open Json (Reads Reader Shape listText objectText following enclosed)

/-! ## Tables that can be dumped -/

/-- The numbers of tables fit together: one token entry for each state, rows as long as there are
classes, and no number of a class or state that the tables do not have. -/
structure Consistent (t : Tables) : Prop where
  tokenMap_size : t.tokenMap.size = t.stateCount
  row_size : ∀ row ∈ t.next, row.size = t.classCount
  class_lt : ∀ c ∈ t.classOf.toList, c < t.classCount
  successor_lt : ∀ row ∈ t.next, ∀ s ∈ row, s < t.stateCount
  start_lt : t.start < t.stateCount
  reject_lt : t.reject < t.stateCount

/-- The numbers of tables fit into the machine words of the format: classes have 16 bits, states and
tokens 32, and the number of classes 64.  The greatest number of 32 bits is no token. -/
structure Fits (t : Tables) : Prop where
  class_le : ∀ c ∈ t.classOf.toList, c ≤ 0xffff
  classCount_le : t.classCount ≤ 0xffffffffffffffff
  successor_le : ∀ row ∈ t.next, ∀ s ∈ row, s ≤ 0xffffffff
  token_lt : ∀ token, some token ∈ t.tokenMap → token < noToken
  start_le : t.start ≤ 0xffffffff
  reject_le : t.reject ≤ 0xffffffff

/-! ## Writing -/

/-- The text of a list of numbers. -/
def numberTexts (numbers : List Nat) : List (List UInt8) := numbers.map fun n => utf8 (toString n)

/-- The entries of a dump. -/
def entries (t : Tables) : List (String × List UInt8) :=
  [("ec", listText (numberTexts t.classOf.toList)),
   ("n_classes", utf8 (toString t.classCount)),
   ("next", listText (t.next.toList.map fun row => listText (numberTexts row.toList))),
   ("token_map", listText (numberTexts (t.tokenMap.toList.map tokenNumber))),
   ("start", utf8 (toString t.start)),
   ("reject", utf8 (toString t.reject)),
   ("eol", listText (t.endsLines.toList.map fun flag => utf8 (if flag then "true" else "false")))]

theorem utf8_listText (texts : List String) :
    listText (texts.map utf8) = utf8 "[" ++ (utf8 (",".intercalate texts) ++ utf8 "]") := by
  rw [listText, ← Json.utf8_intercalate_append]
  rfl

theorem utf8_numbersText (numbers : List Nat) :
    utf8 (numbersText numbers) = listText (numberTexts numbers) := by
  rw [numbersText, utf8_append, utf8_append, List.append_assoc, ← utf8_listText, List.map_map]
  rfl

theorem utf8_dump (t : Tables) : utf8 t.dump = objectText t.entries := by
  have rows : listText (t.next.toList.map fun row => listText (numberTexts row.toList)) =
      utf8 "[" ++ (utf8 (",".intercalate (t.next.toList.map fun row => numbersText row.toList)) ++
        utf8 "]") := by
    rw [← utf8_listText, List.map_map]
    simp only [Function.comp_def, utf8_numbersText]
  have flags : listText (t.endsLines.toList.map fun flag => utf8 (if flag then "true" else "false")) =
      utf8 "[" ++ (utf8 (",".intercalate
        (t.endsLines.toList.map fun flag => if flag then "true" else "false")) ++ utf8 "]") := by
    rw [← utf8_listText, List.map_map]
    rfl
  simp only [dump, String.join_cons, String.join_nil, utf8_append, utf8_numbersText, objectText,
    entries, rows, flags, List.map_cons, List.map_nil, enclosed, following, Json.entryText,
    List.cons_append, List.append_assoc]
  rfl

/-! ## Reading -/

/-- The numbers of a dump of tables. -/
def Raw.ofTables (t : Tables) : Raw where
  classOf := t.classOf
  classCount := t.classCount
  next := t.next.toList.map Array.toList
  tokenMap := t.tokenMap.toList.map tokenNumber
  start := t.start
  reject := t.reject
  endsLines := t.endsLines.toList

/-- A field of a dump is read by the reader of its value. -/
theorem fills_kept {α : Type} {remaining : Nat} {seen : List String} {raw final : Raw} {name : String}
    {inList inObject : Bool} {read : Nat → Reader α} {put : α → Raw → Raw} {value : α}
    {text : List UInt8} {entries : List (String × List UInt8)} (plain : Json.IsPlain name)
    (known : (dumpShape.fields.find? fun field => field.name == name) =
      some ⟨name, inList, inObject, fun remaining => keep (read remaining) put⟩)
    (fresh : seen.contains name = false) (reads : Reads (read remaining) text value)
    (others : dumpShape.Fills remaining (name :: seen) (put value raw) entries final) :
    dumpShape.Fills remaining seen raw ((name, text) :: entries) final := by
  refine .entry plain known fresh ⟨reads.begins, fun rest delimited => ?_⟩ others
  show (read remaining (text ++ rest)).map _ = _
  rw [reads.reads rest delimited]
  rfl

theorem forall₂_numberTexts {type : String} {limit : Nat} {numbers : List Nat}
    (bound : ∀ n ∈ numbers, n ≤ limit) (word : limit ≤ Json.maxNatural) :
    List.Forall₂ (Reads (Json.natural type limit)) (numberTexts numbers) numbers := by
  rw [numberTexts, List.forall₂_map_left_iff, List.forall₂_same]
  exact fun n member => .natural (bound n member) word

theorem classNumbers_cons {c count position : Nat} {numbers : List Nat} {start rest last : List UInt8}
    (small : c ≤ 0xffff)
    (next : Json.nextElement (position == 0) start = .ok (some (utf8 (toString c) ++ rest)))
    (delimited : Json.Delimited rest)
    (others : classNumbers count (position + 1) rest = .ok (numbers, last)) :
    classNumbers (count + 1) position start = .ok (c :: numbers, last) := by
  have reads : Reads Json.u16 (utf8 (toString c)) c := .natural small (by decide)
  have read := reads.reads rest delimited
  simp only [classNumbers, next, Shape.inside, Except.mapError, read, others, bind, Except.bind]

theorem classNumbers_following {numbers : List Nat} (bound : ∀ c ∈ numbers, c ≤ 0xffff)
    (position : Nat) (rest : List UInt8) :
    classNumbers numbers.length (position + 1)
        (following Ascii.closeBracket (numberTexts numbers) ++ rest) =
      .ok (numbers, Ascii.closeBracket :: rest) := by
  induction numbers generalizing position with
  | nil => rfl
  | cons c numbers ih =>
    obtain ⟨small, others⟩ := List.forall_mem_cons.1 bound
    have reads : Reads Json.u16 (utf8 (toString c)) c := .natural small (by decide)
    refine classNumbers_cons small ?_ (Json.delimited_following (.inl rfl) (numberTexts numbers) rest)
      (ih others _)
    rw [numberTexts, List.map_cons, following, List.cons_append, List.append_assoc]
    exact reads.nextElement_comma _

theorem classNumbers_enclosed {numbers : List Nat} (bound : ∀ c ∈ numbers, c ≤ 0xffff)
    (rest : List UInt8) :
    classNumbers numbers.length 0 (enclosed Ascii.closeBracket (numberTexts numbers) ++ rest) =
      .ok (numbers, Ascii.closeBracket :: rest) := by
  cases numbers with
  | nil => rfl
  | cons c numbers =>
    obtain ⟨small, others⟩ := List.forall_mem_cons.1 bound
    have reads : Reads Json.u16 (utf8 (toString c)) c := .natural small (by decide)
    refine classNumbers_cons small ?_ (Json.delimited_following (.inl rfl) (numberTexts numbers) rest)
      (classNumbers_following others 0 rest)
    rw [numberTexts, List.map_cons, enclosed, List.append_assoc]
    exact reads.nextElement_first _

theorem reads_classArray {remaining : Nat} (levels : 1 < remaining) {classOf : Vector Nat 256}
    (bound : ∀ c ∈ classOf.toList, c ≤ 0xffff) :
    Reads (classArray remaining) (listText (numberTexts classOf.toList)) classOf := by
  refine ⟨⟨_, _, rfl, by decide, by decide⟩, fun rest _ => ?_⟩
  have visible : Json.isBlank Ascii.openBracket = false := rfl
  have read := classNumbers_enclosed bound rest
  rw [Vector.length_toList] at read
  have same : (Vector.ofFn fun i => classOf.toList.getD i 0) = classOf := by
    ext i inside
    simp
  have closed : Shape.close Json.towardsEndOfList Json.endList
      (.ok (classOf.toList, Ascii.closeBracket :: rest)) = .ok (classOf.toList, rest) := rfl
  simp only [classArray, listText, List.cons_append, Json.skipBlanks_cons visible, if_true,
    Json.entered, if_neg (Nat.not_le_of_lt levels), read, closed, Except.map, same]

theorem reads_rows {remaining : Nat} (levels : 1 < remaining - 1) {next : Array (Array Nat)}
    (bound : ∀ row ∈ next, ∀ s ∈ row, s ≤ 0xffffffff) :
    Reads (Json.listOf remaining fun remaining => Json.listOf remaining fun _ => Json.u32)
      (listText (next.toList.map fun row => listText (numberTexts row.toList)))
      (next.toList.map Array.toList) := by
  refine .listOf (by omega) ?_
  rw [List.forall₂_map_left_iff, List.forall₂_map_right_iff, List.forall₂_same]
  refine fun row member => .listOf levels (forall₂_numberTexts (fun s inside => ?_) (by decide))
  exact bound row (Array.mem_toList_iff.1 member) s (Array.mem_toList_iff.1 inside)

theorem reads_tokenMap {remaining : Nat} (levels : 1 < remaining) {tokenMap : Array (Option Nat)}
    (bound : ∀ token, some token ∈ tokenMap → token < noToken) :
    Reads (Json.listOf remaining fun _ => Json.u32)
      (listText (numberTexts (tokenMap.toList.map tokenNumber))) (tokenMap.toList.map tokenNumber) := by
  refine .listOf levels (forall₂_numberTexts (fun n member => ?_) (by decide))
  obtain ⟨token, listed, rfl⟩ := List.mem_map.1 member
  cases token with
  | none => exact Nat.le_refl noToken
  | some token => exact Nat.le_of_lt (bound token (Array.mem_toList_iff.1 listed))

theorem reads_flags {remaining : Nat} (levels : 1 < remaining) (flags : List Bool) :
    Reads (Json.listOf remaining fun _ => Json.boolean)
      (listText (flags.map fun flag => utf8 (if flag then "true" else "false"))) flags := by
  refine .listOf levels ?_
  rw [List.forall₂_map_left_iff, List.forall₂_same]
  exact fun flag _ => .boolean flag

theorem fills_entries {t : Tables} (fits : t.Fits) :
    dumpShape.Fills (Json.maxDepth - 1) [] default t.entries (Raw.ofTables t) := by
  -- The fields are written in the order in which the shape lists them.
  have levels : 1 < Json.maxDepth - 1 := by decide
  have words : 0xffffffff ≤ Json.maxNatural := by decide
  refine fills_kept (by decide) rfl rfl (reads_classArray levels fits.class_le) ?_
  refine fills_kept (by decide) rfl rfl (.natural fits.classCount_le (Nat.le_refl _)) ?_
  refine fills_kept (by decide) rfl rfl (reads_rows (by decide) fits.successor_le) ?_
  refine fills_kept (by decide) rfl rfl (reads_tokenMap levels fits.token_lt) ?_
  refine fills_kept (by decide) rfl rfl (.natural fits.start_le words) ?_
  refine fills_kept (by decide) rfl rfl (.natural fits.reject_le words) ?_
  refine fills_kept (by decide) rfl rfl (reads_flags levels _) ?_
  exact .done rfl

/-! ## Checking -/

theorem mem_next_toTables {raw : Raw} {row : Array Nat} :
    row ∈ raw.toTables.next ↔ ∃ numbers ∈ raw.next, numbers.toArray = row := by
  simp [Raw.toTables]

theorem stateCount_toTables (raw : Raw) : raw.toTables.stateCount = raw.next.length := by
  simp [stateCount, Raw.toTables]

theorem consistent_toTables_iff {raw : Raw} :
    raw.toTables.Consistent ↔
      raw.tokenMap.length = raw.next.length ∧ (∀ row ∈ raw.next, row.length = raw.classCount) ∧
      (∀ c ∈ raw.classOf.toList, c < raw.classCount) ∧
      (∀ row ∈ raw.next, ∀ s ∈ row, s < raw.next.length) ∧
      raw.start < raw.next.length ∧ raw.reject < raw.next.length := by
  have states := stateCount_toTables raw
  have tokens : raw.toTables.tokenMap.size = raw.tokenMap.length := by simp [Raw.toTables]
  constructor
  · rintro ⟨entries, rows, classes, successors, start, reject⟩
    rw [states] at entries successors start reject
    rw [tokens] at entries
    refine ⟨entries, fun row member => ?_, classes, fun row member s inside => ?_, start, reject⟩
    · exact rows row.toArray (mem_next_toTables.2 ⟨row, member, rfl⟩)
    · exact successors row.toArray (mem_next_toTables.2 ⟨row, member, rfl⟩) s (by simpa using inside)
  · rintro ⟨entries, rows, classes, successors, start, reject⟩
    rw [← states] at entries successors start reject
    rw [← tokens] at entries
    refine ⟨entries, fun row member => ?_, classes, fun row member s inside => ?_, start, reject⟩
    · obtain ⟨numbers, listed, rfl⟩ := mem_next_toTables.1 member
      exact rows numbers listed
    · obtain ⟨numbers, listed, rfl⟩ := mem_next_toTables.1 member
      exact successors numbers listed s (by simpa using inside)

theorem fault?_eq_none_iff {raw : Raw} : raw.fault? = none ↔ raw.toTables.Consistent := by
  rw [consistent_toTables_iff, Raw.fault?]
  by_cases tokens : raw.tokenMap.length = raw.next.length
  · rw [if_neg (not_not_intro tokens)]
    cases found : raw.next.find? fun row => row.length != raw.classCount with
    | some row =>
      have differs := List.find?_some found
      have member := List.mem_of_find?_eq_some found
      simp only [reduceCtorEq, false_iff]
      rintro ⟨_, rows, _⟩
      simp [rows row member] at differs
    | none =>
      have rows : ∀ row ∈ raw.next, row.length = raw.classCount := by
        simpa using List.find?_eq_none.1 found
      simp only [ite_eq_left_iff, reduceCtorEq, imp_false, not_not, Bool.and_eq_true,
        List.all_eq_true, decide_eq_true_eq]
      exact ⟨fun ⟨⟨⟨classes, successors⟩, start⟩, reject⟩ =>
        ⟨tokens, rows, classes, successors, start, reject⟩,
        fun ⟨_, _, classes, successors, start, reject⟩ => ⟨⟨⟨classes, successors⟩, start⟩, reject⟩⟩
  · rw [if_pos tokens]
    simp only [reduceCtorEq, false_iff]
    exact fun consistent => tokens consistent.1

theorem ofNumber_tokenNumber {token : Option Nat} (small : ∀ t ∈ token, t < noToken) :
    (if tokenNumber token = noToken then none else some (tokenNumber token)) = token := by
  cases token with
  | none => rfl
  | some t => exact if_neg (Nat.ne_of_lt (small t rfl))

/-- Writing numbers and taking them back changes nothing, since no token has the greatest number. -/
theorem toTables_ofTables {t : Tables} (fits : t.Fits) : (Raw.ofTables t).toTables = t := by
  have next : ((t.next.toList.map Array.toList).map List.toArray).toArray = t.next := by
    simp [List.map_map, Function.comp_def]
  have tokenMap : ((t.tokenMap.toList.map tokenNumber).map fun token =>
      if token = noToken then none else some token).toArray = t.tokenMap := by
    rw [List.map_map]
    refine Eq.trans (congrArg List.toArray (List.map_congr_left fun token member => ?_))
      (by rw [List.map_id, Array.toArray_toList])
    exact ofNumber_tokenNumber fun k given =>
      fits.token_lt k (by rw [← given]; exact Array.mem_toList_iff.1 member)
  have endsLines : t.endsLines.toList.toArray = t.endsLines := Array.toArray_toList
  simp only [Raw.toTables, Raw.ofTables, next, tokenMap, endsLines]

theorem load_dump {t : Tables} (consistent : t.Consistent) (fits : t.Fits) :
    load (utf8 t.dump) = .ok t := by
  have read := (Json.Shape.Fills.reads (by decide) (fills_entries fits)).document
  have faultless : (Raw.ofTables t).fault? = none := by
    rw [fault?_eq_none_iff, toTables_ofTables fits]
    exact consistent
  rw [load, utf8_dump, read]
  simp only [faultless, toTables_ofTables fits]

/-! ## Loaded tables -/

/-- The numbers of a dump fit into the words that they are read as. -/
structure Raw.Fits (raw : Raw) : Prop where
  class_le : ∀ c ∈ raw.classOf.toList, c ≤ 0xffff
  classCount_le : raw.classCount ≤ 0xffffffffffffffff
  successor_le : ∀ row ∈ raw.next, ∀ s ∈ row, s ≤ 0xffffffff
  token_le : ∀ token ∈ raw.tokenMap, token ≤ 0xffffffff
  start_le : raw.start ≤ 0xffffffff
  reject_le : raw.reject ≤ 0xffffffff

theorem Raw.Fits.toTables {raw : Raw} (fits : raw.Fits) : raw.toTables.Fits := by
  refine ⟨fits.class_le, fits.classCount_le, fun row member s inside => ?_, fun token member => ?_,
    fits.start_le, fits.reject_le⟩
  · obtain ⟨numbers, listed, rfl⟩ := mem_next_toTables.1 member
    exact fits.successor_le numbers listed s (by simpa using inside)
  · obtain ⟨number, listed, given⟩ := List.mem_map.1 (List.mem_toArray.1 member)
    split at given
    · cases given
    · next differs =>
      cases given
      exact Nat.lt_of_le_of_ne (fits.token_le token listed) differs

theorem le_of_classNumbers {count position : Nat} {text rest : List UInt8} {numbers : List Nat}
    (read : classNumbers count position text = .ok (numbers, rest)) : ∀ c ∈ numbers, c ≤ 0xffff := by
  induction count generalizing position text numbers with
  | zero =>
    cases read
    exact fun _ absent => absurd absent List.not_mem_nil
  | succ count ih =>
    rw [classNumbers] at read
    obtain ⟨next, _, read⟩ := exists_of_bind_eq_ok read
    cases next with
    | none => cases read
    | some start =>
      obtain ⟨⟨c, more⟩, given, read⟩ := exists_of_bind_eq_ok read
      obtain ⟨⟨others, last⟩, following, read⟩ := exists_of_bind_eq_ok read
      cases read
      exact List.forall_mem_cons.2 ⟨Json.le_of_natural (eq_ok_of_mapError given), ih following⟩

theorem le_of_classArray {remaining : Nat} {text rest : List UInt8} {classOf : Vector Nat 256}
    (read : classArray remaining text = .ok (classOf, rest)) : ∀ c ∈ classOf.toList, c ≤ 0xffff := by
  simp only [classArray, Json.entered] at read
  split at read
  · cases read
  · split at read
    · split at read
      · cases read
      · obtain ⟨⟨numbers, more⟩, content, same⟩ := exists_of_map_eq_ok read
        obtain ⟨_, content⟩ := Shape.close_eq_ok content
        simp only [Prod.mk.injEq] at same
        rw [← same.1]
        intro c member
        obtain ⟨i, rfl⟩ := Vector.mem_ofFn.1 (Vector.mem_toList_iff.1 member)
        rw [List.getD_eq_getElem?_getD]
        cases entry : numbers[(i : Nat)]? with
        | none => exact Nat.zero_le _
        | some c => exact le_of_classNumbers content c (List.mem_of_getElem? entry)
    · cases read

theorem keep_eq_ok {α : Type} {read : Reader α} {put : α → Raw → Raw} {raw raw' : Raw}
    {text rest : List UInt8} (kept : keep read put raw text = .ok (raw', rest)) :
    ∃ value, read text = .ok (value, rest) ∧ raw' = put value raw := by
  obtain ⟨⟨value, more⟩, given, same⟩ := exists_of_map_eq_ok kept
  cases same
  exact ⟨value, given, rfl⟩

theorem dumpShape_keeps : dumpShape.Keeps Raw.Fits := by
  intro field member remaining raw text raw' rest before read
  simp only [dumpShape, List.mem_cons, List.not_mem_nil, or_false] at member
  -- Each field puts one number or list in its place and leaves the others.
  rcases member with rfl | rfl | rfl | rfl | rfl | rfl | rfl <;> simp only at read <;>
    obtain ⟨value, given, rfl⟩ := keep_eq_ok read
  · exact { before with class_le := le_of_classArray given }
  · exact { before with classCount_le := Json.le_of_natural given }
  · exact { before with
      successor_le := Json.forall_mem_of_listOf (fun _ _ _ _ row =>
        Json.forall_mem_of_listOf (fun _ _ _ _ => Json.le_of_natural) row) given }
  · exact { before with
      token_le := Json.forall_mem_of_listOf (fun _ _ _ _ => Json.le_of_natural) given }
  · exact { before with start_le := Json.le_of_natural given }
  · exact { before with reject_le := Json.le_of_natural given }
  · exact { before with }

theorem fits_default : (default : Raw).Fits := by
  have noRows : (default : Raw).next = [] := rfl
  have noTokens : (default : Raw).tokenMap = [] := rfl
  refine ⟨fun c member => ?_, Nat.zero_le _, fun row absent => ?_, fun token absent => ?_,
    Nat.zero_le _, Nat.zero_le _⟩
  · have zero : c = 0 := List.eq_of_mem_replicate (n := 256) member
    rw [zero]
    exact Nat.zero_le _
  · rw [noRows] at absent
    exact absurd absent List.not_mem_nil
  · rw [noTokens] at absent
    exact absurd absent List.not_mem_nil

/-- Tables that are loaded are consistent and fit into the words that they are read as. -/
theorem fits_of_load {bytes : List UInt8} {t : Tables} (loaded : load bytes = .ok t) :
    t.Consistent ∧ t.Fits := by
  rw [load] at loaded
  split at loaded
  · cases loaded
  · next raw accepted =>
    split at loaded
    · cases loaded
    · next faultless =>
      cases loaded
      obtain ⟨rest, read⟩ := Json.exists_of_document accepted
      exact ⟨fault?_eq_none_iff.1 faultless, (dumpShape_keeps.read fits_default read).toTables⟩

/-! ## Built tables -/

theorem class_lt_size {κ : Type} [BEq κ] [Hashable κ] [LawfulBEq κ] [LawfulHashable κ]
    (key : UInt8 → κ) {c : Nat} (member : c ∈ (ByteClasses.ofKey key).classOf.toList) :
    c < (ByteClasses.ofKey key).size := by
  obtain ⟨i, inside, rfl⟩ := Vector.mem_iff_getElem.1 (Vector.mem_toList_iff.1 member)
  exact ByteClasses.get_lt_size key (UInt8.ofFin ⟨i, inside⟩)

theorem distinctCount_le {κ : Type} [BEq κ] [Hashable κ] [LawfulBEq κ] [LawfulHashable κ]
    (keys : List κ) : distinctCount keys ≤ keys.length :=
  (Dfa.Partition.covers_ofKeys keys).count_le

theorem size_le_256 {κ : Type} [BEq κ] [Hashable κ] [LawfulBEq κ] [LawfulHashable κ]
    (key : UInt8 → κ) : (ByteClasses.ofKey key).size ≤ 256 := by
  rw [ByteClasses.size, ByteClasses.representatives_ofKey, List.length_map, List.length_range,
    ← length_allBytes, ← List.length_map]
  exact distinctCount_le _

theorem classOf_ofDfa (dfa : Dfa) (endsLines : Array Bool) :
    (ofDfa dfa endsLines).classOf = (ByteClasses.ofKey dfa.column).classOf := by
  rw [ofDfa, Dfa.columnClasses]

theorem classCount_ofDfa (dfa : Dfa) (endsLines : Array Bool) :
    (ofDfa dfa endsLines).classCount = (ByteClasses.ofKey dfa.column).size := by
  rw [ofDfa, Dfa.columnClasses]

theorem stateCount_ofDfa (dfa : Dfa) (endsLines : Array Bool) :
    (ofDfa dfa endsLines).stateCount = dfa.size := by
  rw [stateCount, ofDfa, Array.size_map, Dfa.size]

theorem mem_next_ofDfa {dfa : Dfa} {endsLines : Array Bool} {row : Array Nat} :
    row ∈ (ofDfa dfa endsLines).next ↔
      ∃ state ∈ dfa.states, dfa.columnClasses.representatives.toArray.map state.next = row :=
  Array.mem_map

theorem size_of_mem_next {dfa : Dfa} {endsLines : Array Bool} {row : Array Nat}
    (member : row ∈ (ofDfa dfa endsLines).next) : row.size = (ofDfa dfa endsLines).classCount := by
  obtain ⟨state, _, rfl⟩ := mem_next_ofDfa.1 member
  rw [Array.size_map, List.size_toArray, classCount_ofDfa, ByteClasses.size, Dfa.columnClasses]

theorem consistent_ofDfa {dfa : Dfa} (wellFormed : dfa.WellFormed) (endsLines : Array Bool) :
    (ofDfa dfa endsLines).Consistent := by
  have states := stateCount_ofDfa dfa endsLines
  refine ⟨?_, fun row member => ?_, fun c member => ?_, fun row member s inside => ?_, ?_, ?_⟩
  · rw [states, ofDfa, Array.size_map, Dfa.size]
  · exact size_of_mem_next member
  · rw [classOf_ofDfa] at member
    rw [classCount_ofDfa]
    exact class_lt_size dfa.column member
  · obtain ⟨state, listed, rfl⟩ := mem_next_ofDfa.1 member
    obtain ⟨b, _, rfl⟩ := Array.mem_map.1 inside
    obtain ⟨i, bound, rfl⟩ := Array.mem_iff_getElem.1 listed
    rw [states, ← Dfa.next_of_lt bound]
    exact wellFormed.next_lt i bound b
  · rw [states]
    exact wellFormed.start_lt
  · rw [states]
    exact wellFormed.reject_lt

/-- There are at most as many classes as bytes, and so only the states and the tokens of an
automaton may be too many for their words. -/
theorem fits_ofDfa {dfa : Dfa} (wellFormed : dfa.WellFormed) (endsLines : Array Bool)
    (states : dfa.size ≤ 2 ^ 32) (tokens : ∀ s token, dfa.token? s = some token → token < noToken) :
    (ofDfa dfa endsLines).Fits := by
  have consistent := consistent_ofDfa wellFormed endsLines
  have classes := size_le_256 dfa.column
  rw [← classCount_ofDfa dfa endsLines] at classes
  rw [← stateCount_ofDfa dfa endsLines] at states
  have word : ∀ s < (ofDfa dfa endsLines).stateCount, s ≤ 0xffffffff := fun s inside => by omega
  refine ⟨fun c member => ?_, by omega, fun row member s inside => ?_, fun token member => ?_,
    word _ consistent.start_lt, word _ consistent.reject_lt⟩
  · have bound := consistent.class_lt c member
    omega
  · exact word s (consistent.successor_lt row member s inside)
  · obtain ⟨s, found⟩ := Array.mem_iff_getElem?.1 member
    refine tokens s token ?_
    rw [← @token?_ofDfa dfa endsLines, token?, found]
    rfl

/-- The winners of the states are tokens that there are. -/
theorem token_lt_length {trees : List Pattern} (ordered : ∀ p ∈ trees, p.countsOrdered = true)
    (rank : Nat → Nat) {d token : Nat}
    (wins : ((Nfa.ofPatterns trees).determinize rank).dfa.token? d = some token) :
    token < trees.length := by
  have nonempty := Nfa.size_ofPatterns_pos ordered
  have wellFormed := Nfa.wellFormed_determinize rank nonempty
  have accessible : d ≠ Dfa.rejectId := by
    rintro rfl
    exact absurd (wellFormed.reject_token.symm.trans wins) nofun
  have inside : d < ((Nfa.ofPatterns trees).determinize rank).dfa.size := by
    obtain ⟨state, place, _⟩ := Option.bind_eq_some_iff.1 wins
    exact (Array.getElem?_eq_some_iff.1 place).1
  obtain ⟨w, rfl, _⟩ := Nfa.exists_access rank nonempty inside accessible
  rw [Nfa.token?_determinize rank nonempty (Nfa.values_run rank nonempty w)] at wins
  split at wins
  · cases wins
  · -- The winner is accepted after the string that leads to the state.
    have accepted := (Nfa.mem_candidates rank).1 (List.mem_of_mem_head? wins)
    obtain ⟨p, found, _⟩ := (Nfa.mem_accepting_run_iff trees ordered w token).1 accepted
    exact (List.getElem?_eq_some_iff.1 found).1

/-- A well-formed automaton whose winners are among a number of tokens. -/
structure NamesTokens (dfa : Dfa) (tokenCount : Nat) : Prop where
  wellFormed : dfa.WellFormed
  winner_lt : ∀ s token, dfa.token? s = some token → token < tokenCount

theorem namesTokens_determinize {tokens : TokenTable} {macros : MacroTable} {trees : List Pattern}
    (read : tokens.trees macros = .ok trees) :
    NamesTokens ((Nfa.ofPatterns trees).determinize tokens.rank).dfa tokens.size := by
  have ordered := countsOrdered_of_trees read
  have sizes : tokens.size = trees.length := (TokenTable.forall₂_of_mapM_eq_ok read).length_eq
  refine ⟨Nfa.wellFormed_determinize tokens.rank (Nfa.size_ofPatterns_pos ordered),
    fun d token wins => ?_⟩
  rw [sizes]
  exact token_lt_length ordered tokens.rank wins

theorem NamesTokens.minimize {dfa : Dfa} {tokenCount : Nat} (names : NamesTokens dfa tokenCount) :
    NamesTokens dfa.minimize tokenCount := by
  refine ⟨Dfa.wellFormed_minimize names.wellFormed, fun s token wins => ?_⟩
  obtain ⟨d, wins⟩ := Dfa.exists_token?_of_minimize names.wellFormed wins
  exact names.winner_lt d token wins

/-- Built tables are those of an automaton whose winners are tokens of the table. -/
theorem exists_dfa_of_build {tokens : TokenTable} {macros : MacroTable} {minimize : Bool} {built : Built}
    (succeeded : build tokens macros minimize = .ok built) :
    ∃ (dfa : Dfa) (endsLines : Array Bool), dfa.WellFormed ∧
      (∀ s token, dfa.token? s = some token → token < tokens.size) ∧
      built.tables = ofDfa dfa endsLines := by
  obtain ⟨trees, dfa, _, names, tables⟩ := exists_ofDfa_of_build
    (P := fun dfa => NamesTokens dfa tokens.size) succeeded
    (fun _ => namesTokens_determinize) fun _ => NamesTokens.minimize
  exact ⟨dfa, _, names.wellFormed, names.winner_lt, tables⟩

/-! ## The way there and back -/

theorem load_dump_eq_ok_iff {t : Tables} :
    load (utf8 t.dump) = .ok t ↔ t.Consistent ∧ t.Fits :=
  ⟨fits_of_load, fun ⟨consistent, fits⟩ => load_dump consistent fits⟩

/-- A dump gives back tables exactly if their numbers fit together and into their words.  Loaded
tables are such, and so are built ones, unless they have more states or tokens than there are words
of 32 bits. -/
theorem load_dump_roundTrip :
    (∀ t : Tables, load (utf8 t.dump) = .ok t ↔ t.Consistent ∧ t.Fits) ∧
    (∀ bytes t, load bytes = .ok t →
      t.Consistent ∧ t.Fits ∧ load (utf8 t.dump) = load bytes) ∧
    ∀ tokens macros minimize built, build tokens macros minimize = .ok built →
      built.tables.stateCount ≤ 2 ^ 32 → tokens.size ≤ noToken →
      built.tables.Consistent ∧ load (utf8 built.tables.dump) = .ok built.tables := by
  refine ⟨fun t => load_dump_eq_ok_iff, fun bytes t loaded => ?_,
    fun tokens macros minimize built succeeded states words => ?_⟩
  · obtain ⟨consistent, fits⟩ := fits_of_load loaded
    exact ⟨consistent, fits, (load_dump consistent fits).trans loaded.symm⟩
  · obtain ⟨dfa, endsLines, wellFormed, winners, tables⟩ := exists_dfa_of_build succeeded
    rw [tables, stateCount_ofDfa] at states
    have fits := fits_ofDfa wellFormed endsLines states fun s token wins =>
      Nat.lt_of_lt_of_le (winners s token wins) words
    have consistent := consistent_ofDfa wellFormed endsLines
    rw [tables]
    exact ⟨consistent, load_dump consistent fits⟩

/-- The tables of a letter and the catch-all, which are not minimized, and their dump. -/
theorem load_dump_roundTrip_letter :
    ∃ built, build letterTable .empty false = .ok built ∧ built.tables.stateCount ≤ 2 ^ 32 ∧
      letterTable.size ≤ noToken ∧ load (utf8 built.tables.dump) = .ok built.tables ∧
      built.tables.Consistent ∧ built.tables.Fits := by
  have succeeded : build letterTable .empty false =
      .ok (ofTrees letterTable [.byte Ascii.letterA, .set .full] false) :=
    build_eq_ok_iff.2 ⟨_, trees_letterTable, rfl⟩
  have machine : (Nfa.ofPatterns [.byte Ascii.letterA, .set .full]).states.size = 5 := by decide
  have states : (ofTrees letterTable [.byte Ascii.letterA, .set .full] false).tables.stateCount ≤
      2 ^ 32 := by
    have nonempty : 0 < (Nfa.ofPatterns [.byte Ascii.letterA, .set .full]).states.size := by
      rw [machine]
      exact Nat.succ_pos 4
    have bound := Nfa.size_explored_le nonempty
    rw [machine, ← Nfa.size_determinize letterTable.rank nonempty] at bound
    rw [ofTrees, stateCount_ofDfa]
    exact bound.trans (by decide)
  have words : letterTable.size ≤ noToken := by decide
  obtain ⟨_, loaded⟩ := load_dump_roundTrip.2.2 _ _ _ _ succeeded states words
  obtain ⟨consistent, fits, _⟩ := load_dump_roundTrip.2.1 _ _ loaded
  exact ⟨_, succeeded, states, words, loaded, consistent, fits⟩

end ScannerGen.Tables
