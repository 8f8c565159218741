import Mathlib.Data.List.Nodup
import ScannerGen.Proofs.Options.Calls

/-!
# What holds of options

The extra fields become variables of the scanner and the helper is named after an option, so their
names have to stay legal whatever is called, also when calls are refused on the way.

* `Options.Sound` — the names of extra fields are allowed and different, and the helper has a name.
* `Options.Sound.perform`, `Options.Sound.afterCalls` — a call and a run of calls keep that.
-/

namespace ScannerGen.Options

/-- The options after some calls, any of which may be refused. -/
def afterCalls (options : Options) (calls : List Call) : Options :=
  calls.foldl (fun options call => (options.perform call).options) options

structure Sound (options : Options) : Prop where
  distinct : options.fieldNames.Nodup
  allowed : ∀ field ∈ options.extra, field.Allowed
  helperName : IsCIdentifier options.helperName

variable {options : Options}

theorem sound_default : Options.default.Sound where
  distinct := List.nodup_nil
  allowed := fun _ absent => absurd absent List.not_mem_nil
  helperName := isCIdentifier_iff.2 (by decide)

theorem Sound.cleared (sound : options.Sound) (call : Call) : (call.cleared options).Sound := by
  by_cases replaces : call.Replaces .extra
  · have empty : (call.cleared options).extra = [] := if_pos replaces
    refine ⟨?_, ?_, sound.helperName⟩
    · rw [fieldNames, empty]
      exact List.nodup_nil
    · rw [empty]
      exact fun _ absent => absurd absent List.not_mem_nil
  · have kept : (call.cleared options).extra = options.extra := if_neg replaces
    refine ⟨?_, kept ▸ sound.allowed, sound.helperName⟩
    rw [fieldNames, kept]
    exact sound.distinct

/-- A field that is gained is allowed, and its name is new. -/
theorem Sound.gains {key : OptionKey} {value : String} {origin : Origin} {after : Options}
    (sound : options.Sound) (gains : options.Gains key value origin after) : after.Sound := by
  obtain ⟨_, fields, rfl⟩ := gains
  cases declared : key.field? value origin with
  | none =>
    refine ⟨?_, ?_, sound.helperName⟩
    · simpa [fieldNames] using sound.distinct
    · simpa using sound.allowed
  | some field =>
    obtain ⟨allowed, new⟩ := fields field declared
    refine ⟨?_, ?_, sound.helperName⟩
    · have names : (options.extra ++ [field]).map ExtraField.name = options.fieldNames ++ [field.name] :=
        List.map_append
      simp only [fieldNames, Option.toList_some, names]
      exact List.Nodup.append sound.distinct (List.nodup_singleton _)
        (List.disjoint_singleton.2 new)
    · rw [Option.toList_some]
      exact List.forall_mem_append.2 ⟨sound.allowed, List.forall_mem_singleton.2 allowed⟩

theorem Sound.perform (sound : options.Sound) (call : Call) : (options.perform call).options.Sound := by
  have effect := effect_perform options call
  generalize options.perform call = update at effect
  cases effect with
  | refused e => exact sound.cleared call
  | gained _ gains => exact (sound.cleared call).gains gains
  | scalar _ _ _ extra _ helperName =>
    refine ⟨?_, extra ▸ sound.allowed, ?_⟩
    · rw [fieldNames, extra]
      exact sound.distinct
    · rcases helperName with same | identifier
      · exact same ▸ sound.helperName
      · exact identifier

theorem Sound.afterCalls (sound : options.Sound) (calls : List Call) :
    (options.afterCalls calls).Sound := by
  induction calls generalizing options with
  | nil => exact sound
  | cons call calls ih => exact ih (sound.perform call)

theorem Sound.allowed_name (sound : options.Sound) {name : String} (listed : name ∈ options.fieldNames) :
    ∃ type, (ExtraField.mk name type).Allowed := by
  obtain ⟨field, among, rfl⟩ := List.mem_map.1 listed
  exact ⟨field.type, sound.allowed field among⟩

theorem Sound.not_listed_of_begun (sound : options.Sound) {name beginning : String}
    (reserved : beginning ∈ ["yy", "YY", "TOK_"]) (begun : beginning.toList <+: name.toList) :
    name ∉ options.fieldNames := by
  intro listed
  obtain ⟨_, allowed⟩ := sound.allowed_name listed
  exact allowed.notBegun beginning reserved begun

/-- Whatever is called, and whatever is refused: the names of the extra fields are different, each is a
C identifier that is neither a keyword nor a name that the scanner uses, and so is the helper's name
an identifier. -/
theorem sound_afterCalls (calls : List Call) : (Options.default.afterCalls calls).Sound :=
  sound_default.afterCalls calls

end ScannerGen.Options
