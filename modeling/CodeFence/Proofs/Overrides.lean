import CodeFence.Proofs.Config
import Mathlib.Data.List.Forall2
import Mathlib.Data.List.Perm.Basic

set_option autoImplicit false

namespace CodeFence
namespace Json

-- What an object gives under a name: nothing, or one value of a meaning.
inductive Gives {β : Type} (name : Text) (means : Json → β → Prop) : List (Option Text × Json) → Option β → Prop
  | nothing {members : List (Option Text × Json)} (absent : ∀ member ∈ members, member.1 ≠ some name) :
      Gives name means members none
  | once {before behind : List (Option Text × Json)} {json : Json} {value : β}
      (first : ∀ member ∈ before, member.1 ≠ some name) (last : ∀ member ∈ behind, member.1 ≠ some name)
      (meant : means json value) : Gives name means (before ++ (some name, json) :: behind) (some value)

def MeansText (json : Json) (chars : Text) : Prop :=
  json = .string (some chars)

def MeansList {β : Type} (means : Json → β → Prop) (json : Json) (values : List β) : Prop :=
  ∃ items, json = .array items ∧ List.Forall₂ means items values

-- The same members in another order, with members of unknown names put in or left out.
inductive Rearranged (known : List Text) : List (Option Text × Json) → List (Option Text × Json) → Prop
  | moved {members others : List (Option Text × Json)} (same : members.Perm others) : Rearranged known members others
  | added {name : Text} {value : Json} {members : List (Option Text × Json)} (unknown : name ∉ known) :
      Rearranged known members ((some name, value) :: members)
  | omitted {name : Text} {value : Json} {members : List (Option Text × Json)} (unknown : name ∉ known) :
      Rearranged known ((some name, value) :: members) members
  | trans {members between others : List (Option Text × Json)} (first : Rearranged known members between)
      (second : Rearranged known between others) : Rearranged known members others

end Json

-- A family is named by a string, or by the only key of an object.
inductive Family.Meant : Json → Family → Prop
  | plain (family : Family) : Meant (.string (some family.name)) family
  | keyed (family : Family) : Meant (.object [(some family.name, .null)]) family

namespace ThemePair

def fields : List Text := ["dark".toList, "light".toList]

structure Overrides where
  dark : Option Text
  light : Option Text

def Overrides.over (overrides : Overrides) (base : ThemePair) : ThemePair :=
  ⟨overrides.dark.getD base.dark, overrides.light.getD base.light⟩

inductive Overrides.Meant : Json → Overrides → Prop
  | named {members : List (Option Text × Json)} {overrides : Overrides} (texts : Json.namesAreTexts members = true)
      (dark : Json.Gives "dark".toList Json.MeansText members overrides.dark)
      (light : Json.Gives "light".toList Json.MeansText members overrides.light) : Meant (.object members) overrides
  | listed {names : List Text} (few : names.length ≤ 2) :
      Meant (.array (names.map fun name => .string (some name))) ⟨names[0]?, names[1]?⟩

end ThemePair

namespace Config

def fields : List Text :=
  ["themes".toList, "css_variable_prefix".toList, "wrapper_class".toList, "passes".toList]

structure Overrides where
  themes : Option ThemePair.Overrides
  stem : Option Text
  wrapperClass : Option Text
  passes : Option (List Family)

-- A configuration with the named fields replaced, and of the themes those that are named.
def Overrides.over (overrides : Overrides) (base : Config) : Config where
  themes := overrides.themes.elim base.themes fun themes => themes.over base.themes
  stem := overrides.stem.getD base.stem
  wrapperClass := overrides.wrapperClass.getD base.wrapperClass
  passes := overrides.passes.getD base.passes

structure Overrides.Meant (members : List (Option Text × Json)) (overrides : Overrides) : Prop where
  texts : Json.namesAreTexts members = true
  themes : Json.Gives "themes".toList ThemePair.Overrides.Meant members overrides.themes
  stem : Json.Gives "css_variable_prefix".toList Json.MeansText members overrides.stem
  wrapperClass : Json.Gives "wrapper_class".toList Json.MeansText members overrides.wrapperClass
  passes : Json.Gives "passes".toList (Json.MeansList Family.Meant) members overrides.passes

inductive Rearranged : List (Option Text × Json) → List (Option Text × Json) → Prop
  | outside {members others : List (Option Text × Json)} (same : Json.Rearranged fields members others) : Rearranged members others
  | inside {themes others members : List (Option Text × Json)} (same : Json.Rearranged ThemePair.fields themes others) :
      Rearranged ((some "themes".toList, .object themes) :: members) ((some "themes".toList, .object others) :: members)
  | trans {members between others : List (Option Text × Json)} (first : Rearranged members between)
      (second : Rearranged between others) : Rearranged members others

end Config

namespace Json

section Fields

variable {α β : Type} {members others : List (Option Text × Json)} {name : Text} {default : α} {read : Json → Option α}

theorem field_absent (absent : ∀ member ∈ members, member.1 ≠ some name) : field members name default read = some default := by
  simp [field, absent_iff.mpr absent]

theorem field_once {before behind : List (Option Text × Json)} {json : Json} (first : ∀ member ∈ before, member.1 ≠ some name)
    (last : ∀ member ∈ behind, member.1 ≠ some name) :
    field (before ++ (some name, json) :: behind) name default read = read json := by
  induction before with
  | nil => exact field_named last
  | cons member before ih =>
      obtain ⟨here, later⟩ := List.forall_mem_cons.mp first
      exact (field_other here).trans (ih later)

theorem field_cases {value : α} (found : field members name default read = some value) :
    (∀ member ∈ members, member.1 ≠ some name) ∧ default = value ∨
      ∃ before json behind, members = before ++ (some name, json) :: behind ∧ (∀ member ∈ before, member.1 ≠ some name) ∧
        (∀ member ∈ behind, member.1 ≠ some name) ∧ read json = some value := by
  unfold field at found
  split at found
  · rename_i none
    exact .inl ⟨absent_iff.mp none, Option.some.inj found⟩
  · rename_i member single
    obtain ⟨before, behind, split, first, named, rest⟩ := List.filter_eq_cons_iff.mp single
    obtain ⟨label, json⟩ := member
    obtain rfl : label = some name := by simpa using named
    exact .inr ⟨before, json, behind, split, by simpa using first, absent_iff.mp rest, found⟩
  · exact absurd found (by simp)

theorem field_iff {means : Json → β → Prop} {made : β → α}
    (reads : ∀ json value, read json = some value ↔ ∃ part, means json part ∧ made part = value) {value : α} :
    field members name default read = some value ↔ ∃ given, Gives name means members given ∧ given.elim default made = value := by
  constructor
  · intro found
    rcases field_cases found with ⟨absent, same⟩ | ⟨before, json, behind, rfl, first, last, taken⟩
    · exact ⟨none, .nothing absent, same⟩
    · obtain ⟨part, meant, same⟩ := (reads json value).mp taken
      exact ⟨some part, .once first last meant, same⟩
  · rintro ⟨given, gives, rfl⟩
    cases gives with
    | nothing absent => exact field_absent absent
    | once first last meant =>
        rw [field_once first last]
        exact (reads _ _).mpr ⟨_, meant, rfl⟩

theorem field_moved (same : members.Perm others) : field members name default read = field others name default read := by
  have chosen := same.filter fun member => decide (member.1 = some name)
  unfold field
  split
  · rename_i none
    rw [none] at chosen
    rw [← chosen.nil_eq]
  · rename_i member single
    rw [single] at chosen
    rw [List.perm_singleton.mp chosen.symm]
  · rename_i several alone
    split
    · rename_i none
      rw [none] at chosen
      exact absurd chosen.eq_nil several
    · rename_i member single
      rw [single] at chosen
      exact absurd (List.perm_singleton.mp chosen) (alone member)
    · rfl

theorem field_congr {first second : Json} (same : read first = read second) :
    field ((some name, first) :: members) name default read = field ((some name, second) :: members) name default read := by
  simp only [field, List.filter_cons, decide_true, if_true]
  cases members.filter (fun member => decide (member.1 = some name)) with
  | nil => exact same
  | cons member more => rfl

theorem field_rearranged {known : List Text} (rearranged : Rearranged known members others) (held : name ∈ known) :
    field members name default read = field others name default read := by
  induction rearranged with
  | moved same => exact field_moved same
  | added unknown =>
      refine (field_other ?_).symm
      rintro same
      exact unknown (Option.some.inj same ▸ held)
  | omitted unknown =>
      refine field_other ?_
      rintro same
      exact unknown (Option.some.inj same ▸ held)
  | trans first second one two => exact one.trans two

theorem texts_rearranged {known : List Text} (rearranged : Rearranged known members others) :
    namesAreTexts members = namesAreTexts others := by
  induction rearranged with
  | moved same => exact same.all_eq
  | added unknown => rfl
  | omitted unknown => rfl
  | trans first second one two => exact one.trans two

end Fields

section Meanings

variable {α : Type} {members : List (Option Text × Json)} {name : Text} {default : α} {read : Json → Option α}
  {means : Json → α → Prop}

theorem field_value_iff (reads : ∀ json value, read json = some value ↔ means json value) {value : α} :
    field members name default read = some value ↔ ∃ given, Gives name means members given ∧ given.getD default = value := by
  have made : ∀ json value, read json = some value ↔ ∃ part, means json part ∧ id part = value := by
    simpa using reads
  rw [field_iff made]
  refine exists_congr fun given => and_congr_right fun _ => ?_
  cases given <;> rfl

theorem text_iff (json : Json) (chars : Text) : json.text? = some chars ↔ MeansText json chars := by
  cases json <;> simp [text?, MeansText]

theorem mapM_iff (reads : ∀ json value, read json = some value ↔ means json value) {items : List Json} {values : List α} :
    items.mapM read = some values ↔ List.Forall₂ means items values := by
  induction items generalizing values with
  | nil => simp [eq_comm]
  | cons item items ih =>
      rw [List.mapM_cons, List.forall₂_cons_left_iff]
      constructor
      · intro found
        obtain ⟨value, first, rest⟩ := Option.bind_eq_some_iff.mp found
        obtain ⟨others, later, made⟩ := Option.bind_eq_some_iff.mp rest
        exact ⟨value, others, (reads item value).mp first, ih.mp later, (Option.some.inj made).symm⟩
      · rintro ⟨value, others, first, later, rfl⟩
        simp [(reads item value).mpr first, ih.mpr later]

theorem list_iff (reads : ∀ json value, read json = some value ↔ means json value) (json : Json) (values : List α) :
    list? read json = some values ↔ MeansList means json values := by
  cases json <;> simp [list?, MeansList, mapM_iff reads]

end Meanings

end Json

theorem Family.ofName_iff {name : Text} {family : Family} : ofName? name = some family ↔ name = family.name := by
  constructor
  · intro found
    have same := List.find?_some found
    simpa using Eq.symm (of_decide_eq_true same)
  · rintro rfl
    cases family <;> rfl

theorem Family.ofJson_iff (json : Json) (family : Family) : ofJson? json = some family ↔ Meant json family := by
  rw [ofJson?, Option.bind_eq_some_iff]
  constructor
  · rintro ⟨name, chosen, found⟩
    obtain rfl := Family.ofName_iff.mp found
    unfold Json.choice? at chosen
    split at chosen
    · obtain rfl := chosen
      exact .plain family
    · obtain rfl := chosen
      exact .keyed family
    · exact absurd chosen (by simp)
  · intro meant
    cases meant with
    | plain => exact ⟨family.name, rfl, Family.ofName_iff.mpr rfl⟩
    | keyed => exact ⟨family.name, rfl, Family.ofName_iff.mpr rfl⟩

namespace ThemePair

theorem ofJson_named {members : List (Option Text × Json)} {themes : ThemePair} :
    ofJson? (.object members) = some themes ↔
      ∃ overrides : Overrides, overrides.Meant (.object members) ∧ overrides.over {} = themes := by
  have dark := @Json.field_value_iff Text members "dark".toList ({} : ThemePair).dark Json.text? Json.MeansText Json.text_iff
  have light := @Json.field_value_iff Text members "light".toList ({} : ThemePair).light Json.text? Json.MeansText Json.text_iff
  constructor
  · intro found
    simp only [ofJson?, Option.bind_eq_bind, Option.bind_eq_some_iff, Option.guard_eq_some', Option.pure_def, Option.some.injEq] at found
    obtain ⟨-, texts, first, dark', second, light', rfl⟩ := found
    obtain ⟨given, gives, rfl⟩ := dark.mp dark'
    obtain ⟨more, also, rfl⟩ := light.mp light'
    exact ⟨⟨given, more⟩, .named texts gives also, rfl⟩
  · rintro ⟨overrides, meant, rfl⟩
    cases meant with
    | named texts gives also =>
        have first := dark.mpr ⟨_, gives, rfl⟩
        have second := light.mpr ⟨_, also, rfl⟩
        simp only [ofJson?, guard, texts, if_true, first, second]
        rfl

theorem listed_read {names : List Text} (few : names.length ≤ 2) :
    ofJson? (.array (names.map fun name => .string (some name))) = some ((⟨names[0]?, names[1]?⟩ : Overrides).over {}) := by
  match names with
  | [] => rfl
  | [_] => rfl
  | [_, _] => rfl
  | _ :: _ :: _ :: _ => exact absurd few (by simp)

theorem read_listed {items : List Json} {themes : ThemePair} (found : ofJson? (.array items) = some themes) :
    ∃ names : List Text, names.length ≤ 2 ∧ items = names.map fun name => .string (some name) := by
  simp only [ofJson?, Option.bind_eq_bind, Option.bind_eq_some_iff, Option.guard_eq_some'] at found
  obtain ⟨-, few, dark, first, light, second, -⟩ := found
  rcases items with _ | ⟨one, _ | ⟨two, _ | ⟨three, rest⟩⟩⟩
  · exact ⟨[], few, rfl⟩
  · obtain rfl := (Json.text_iff one dark).mp first
    exact ⟨[dark], few, rfl⟩
  · obtain rfl := (Json.text_iff one dark).mp first
    obtain rfl := (Json.text_iff two light).mp second
    exact ⟨[dark, light], few, rfl⟩
  · exact absurd few (by simp)

theorem ofJson_listed {items : List Json} {themes : ThemePair} :
    ofJson? (.array items) = some themes ↔ ∃ overrides : Overrides, overrides.Meant (.array items) ∧ overrides.over {} = themes := by
  constructor
  · intro found
    obtain ⟨names, few, rfl⟩ := read_listed found
    rw [listed_read few] at found
    exact ⟨_, .listed few, Option.some.inj found⟩
  · rintro ⟨overrides, meant, rfl⟩
    cases meant with
    | listed few => exact listed_read few

theorem ofJson_iff (json : Json) (themes : ThemePair) :
    ofJson? json = some themes ↔ ∃ overrides : Overrides, overrides.Meant json ∧ overrides.over {} = themes := by
  cases json with
  | object members => exact ofJson_named
  | array items => exact ofJson_listed
  | _ =>
      constructor
      · exact fun found => absurd found (by simp [ofJson?])
      · rintro ⟨overrides, meant, -⟩
        cases meant

theorem ofJson_rearranged {members others : List (Option Text × Json)} (same : Json.Rearranged fields members others) :
    ofJson? (.object members) = ofJson? (.object others) := by
  have dark : "dark".toList ∈ fields := by decide
  have light : "light".toList ∈ fields := by decide
  rw [ofJson?, ofJson?, Json.texts_rearranged same, Json.field_rearranged same dark, Json.field_rearranged same light]

end ThemePair

namespace Config

theorem ofJson_object_iff {members : List (Option Text × Json)} {config : Config} :
    ofJson? (.object members) = some config ↔ ∃ overrides : Overrides, overrides.Meant members ∧ overrides.over {} = config := by
  have themes := @Json.field_iff ThemePair ThemePair.Overrides members "themes".toList {} ThemePair.ofJson? ThemePair.Overrides.Meant
    (·.over {}) ThemePair.ofJson_iff
  have stem := @Json.field_value_iff Text members "css_variable_prefix".toList defaultStem Json.text? Json.MeansText Json.text_iff
  have wrapper := @Json.field_value_iff Text members "wrapper_class".toList ({} : Config).wrapperClass Json.text? Json.MeansText
    Json.text_iff
  have passes := @Json.field_value_iff (List Family) members "passes".toList Family.defaultPasses (Json.list? Family.ofJson?)
    (Json.MeansList Family.Meant) (Json.list_iff Family.ofJson_iff)
  constructor
  · intro found
    simp only [ofJson?, Option.bind_eq_bind, Option.bind_eq_some_iff, Option.guard_eq_some', Option.pure_def, Option.some.injEq] at found
    obtain ⟨-, texts, _, first, _, second, _, third, _, fourth, rfl⟩ := found
    obtain ⟨a, one, rfl⟩ := themes.mp first
    obtain ⟨b, two, rfl⟩ := stem.mp second
    obtain ⟨c, three, rfl⟩ := wrapper.mp third
    obtain ⟨d, four, rfl⟩ := passes.mp fourth
    exact ⟨⟨a, b, c, d⟩, ⟨texts, one, two, three, four⟩, rfl⟩
  · rintro ⟨overrides, meant, rfl⟩
    have first := themes.mpr ⟨_, meant.themes, rfl⟩
    have second := stem.mpr ⟨_, meant.stem, rfl⟩
    have third := wrapper.mpr ⟨_, meant.wrapperClass, rfl⟩
    have fourth := passes.mpr ⟨_, meant.passes, rfl⟩
    simp only [ofJson?, guard, meant.texts, if_true, first, second, third, fourth]
    rfl

theorem ofJson_outside {members others : List (Option Text × Json)} (same : Json.Rearranged fields members others) :
    ofJson? (.object members) = ofJson? (.object others) := by
  have themes : "themes".toList ∈ fields := by decide
  have stem : "css_variable_prefix".toList ∈ fields := by decide
  have wrapperClass : "wrapper_class".toList ∈ fields := by decide
  have passes : "passes".toList ∈ fields := by decide
  rw [ofJson?, ofJson?, Json.texts_rearranged same, Json.field_rearranged same themes, Json.field_rearranged same stem,
    Json.field_rearranged same wrapperClass, Json.field_rearranged same passes]

theorem ofJson_inside {themes others members : List (Option Text × Json)} (same : Json.Rearranged ThemePair.fields themes others) :
    ofJson? (.object ((some "themes".toList, .object themes) :: members)) =
      ofJson? (.object ((some "themes".toList, .object others) :: members)) := by
  have stem : some "themes".toList ≠ some "css_variable_prefix".toList := by decide
  have wrapperClass : some "themes".toList ≠ some "wrapper_class".toList := by decide
  have passes : some "themes".toList ≠ some "passes".toList := by decide
  rw [ofJson?, ofJson?, Json.field_congr (ThemePair.ofJson_rearranged same), Json.field_other stem, Json.field_other stem,
    Json.field_other wrapperClass, Json.field_other wrapperClass, Json.field_other passes, Json.field_other passes]
  rfl

theorem ofJson_rearranged {members others : List (Option Text × Json)} (rearranged : Rearranged members others) :
    ofJson? (.object members) = ofJson? (.object others) := by
  induction rearranged with
  | outside same => exact ofJson_outside same
  | inside same => exact ofJson_inside same
  | trans first second one two => exact one.trans two

theorem parse_value {json : Json} {text : Text} (spelled : Json.Padded json text) :
    parse text = (ofJson? json).elim (.error (.json "the value has another shape than expected".toList)) .ok := by
  rw [parse, Json.decode, Json.parse_spelled spelled]
  cases found : ofJson? json <;> simp only [found] <;> rfl

theorem overrides_read {members : List (Option Text × Json)} {text : Text} (spelled : Json.Padded (.object members) text) :
    (∀ config, parse text = .ok config ↔ ∃ overrides : Overrides, overrides.Meant members ∧ overrides.over {} = config) ∧
      ∀ others written, Rearranged members others → Json.Padded (.object others) written → parse written = parse text := by
  constructor
  · intro config
    rw [parse_value spelled, ← ofJson_object_iff]
    cases ofJson? (.object members) <;> simp
  · intro others written rearranged also
    rw [parse_value spelled, parse_value also, ofJson_rearranged rearranged]

-- An escaped name, and members of no meaning at both levels.
theorem overrides_read_nested :
    parse "\n\x7b\"x\" :[[],\x7b\"\":null\x7d], \"th\\u0065mes\":\x7b\"hue\":null,\"light\":\"nord\"\x7d\x7d".toList =
      .ok { themes := { light := "nord".toList } } := by
  let unknown : Json := .array [.array [], .object [(some [], .null)]]
  let themes : List (Option Text × Json) := [(some "hue".toList, .null), (some "light".toList, .string (some "nord".toList))]
  have nested : (Json.object [(some [], .null)]).Proper := .object (List.forall_mem_singleton.mpr .null)
  have skipped : unknown.Proper :=
    .array (List.forall_mem_cons.mpr ⟨.array (List.forall_mem_nil _), List.forall_mem_singleton.mpr nested⟩)
  have proper : (Json.object themes).Proper := .object (List.forall_mem_cons.mpr ⟨.null, List.forall_mem_singleton.mpr (.string _)⟩)
  have space : Json.Blank [' '] := List.forall_mem_singleton.mpr rfl
  have escaped : Json.UnitsSpelled [.char 't', .char 'h', .code 0x65, .char 'm', .char 'e', .char 's'] "th\\u0065mes".toList :=
    .plain (by decide) (by decide) (by decide) (.plain (by decide) (by decide) (by decide) (.code rfl (Json.chars_spelled "mes".toList)))
  have first : Json.MemberSpelled (some ['x'], unknown) _ :=
    .named Json.blank_nil (Json.chars_spelled ['x']) space (Json.text_spelled skipped).padded
  have second : Json.MemberSpelled (some "themes".toList, .object themes) _ :=
    .named space escaped Json.blank_nil (Json.text_spelled proper).padded
  have line : Json.Blank ['\n'] := List.forall_mem_singleton.mpr rfl
  have spelled := Json.Padded.gaps line (.object (.more first (.last second))) Json.blank_nil
  have inner : ThemePair.Overrides.Meant (.object themes) ⟨none, some "nord".toList⟩ :=
    .named rfl (.nothing (by simp [themes])) (@Json.Gives.once _ _ _ [_] [] _ _ (by simp) (by simp) rfl)
  have meant : Overrides.Meant [(some ['x'], unknown), (some "themes".toList, .object themes)]
      ⟨some ⟨none, some "nord".toList⟩, none, none, none⟩ := by
    constructor
    · rfl
    · exact @Json.Gives.once _ _ _ [_] [] _ _ (by simp) (by simp) inner
    · exact .nothing (by simp)
    · exact .nothing (by simp)
    · exact .nothing (by simp)
  have read := ((overrides_read spelled).1 _).mpr ⟨_, meant, rfl⟩
  refine Eq.trans (congrArg parse ?_) read
  decide +kernel

end Config
end CodeFence
