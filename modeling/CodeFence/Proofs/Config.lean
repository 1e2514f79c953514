import CodeFence.Config
import CodeFence.Proofs.Json.Writer

set_option autoImplicit false

namespace CodeFence
namespace Json

variable {α : Type} {members : List (Option Text × Json)} {name : Text} {default : α} {read : Json → Option α}

theorem field_other {other : Option Text} {value : Json} (different : other ≠ some name) :
    field ((other, value) :: members) name default read = field members name default read := by
  simp [field, different]

theorem absent_iff :
    members.filter (fun member => decide (member.1 = some name)) = [] ↔ ∀ member ∈ members, member.1 ≠ some name := by
  simp [List.filter_eq_nil_iff]

theorem field_named {value : Json} (absent : ∀ member ∈ members, member.1 ≠ some name) :
    field ((some name, value) :: members) name default read = read value := by
  simp [field, absent_iff.mpr absent]

theorem list_map {write : α → Json} (inverse : ∀ value, read (write value) = some value) (values : List α) :
    list? read (.array (values.map write)) = some values := by
  rw [list?]
  induction values with
  | nil => rfl
  | cons value values ih => simp [inverse, ih]

end Json

theorem Family.ofJson_toJson (family : Family) : ofJson? family.toJson = some family := by
  cases family <;> rfl

theorem ThemePair.ofJson_toJson (themes : ThemePair) : ofJson? themes.toJson = some themes := by
  simp [toJson, ofJson?, Json.namesAreTexts, Json.field_other, Json.field_named, Json.text?]

theorem ThemePair.toJson_proper (themes : ThemePair) : themes.toJson.Proper := by
  refine .object ?_
  simp [Json.Proper.string]

namespace Config

theorem ofJson_toJson (config : Config) : ofJson? config.toJson = some config := by
  have passes := Json.list_map Family.ofJson_toJson config.passes
  simp [toJson, ofJson?, Json.namesAreTexts, Json.field_other, Json.field_named, Json.text?, config.themes.ofJson_toJson, passes]

theorem toJson_proper (config : Config) : config.toJson.Proper := by
  have passes : (Json.array (config.passes.map Family.toJson)).Proper := by
    refine .array ?_
    simp [Family.toJson, Json.Proper.string]
  refine .object ?_
  simp [config.themes.toJson_proper, passes, Json.Proper.string]

theorem read_back (config : Config) : parse config.text = .ok config := by
  rw [parse, text, Json.decode, Json.parse_text config.toJson_proper]
  simp only [config.ofJson_toJson]

theorem parse_refused {text : Text} {fault : Fault} (refused : parse text = .error fault) : fault.wrapsCause = true := by
  unfold parse Json.decode at refused
  cases found : Json.parse? text with
  | none =>
      rw [found] at refused
      exact Except.error.inj refused ▸ rfl
  | some json =>
      cases read : ofJson? json with
      | none =>
          simp only [found, read] at refused
          exact Except.error.inj refused ▸ rfl
      | some config =>
          simp only [found, read] at refused
          cases refused

end Config
end CodeFence
