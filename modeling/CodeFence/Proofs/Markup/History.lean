import CodeFence.Proofs.Markup.Properties
import Mathlib.Data.List.Induction

set_option autoImplicit false

namespace CodeFence

inductive Edit
  | set (name : Text) (value : Property)
  | remove (name : Text)
  | child (node : Node)

namespace Edit

def apply (root : Element) : Edit → Element
  | set name value => root.setProperty name value
  | remove name => (root.removeProperty name).2
  | child node => root.withChild node

def name? : Edit → Option Text
  | set name _ => some name
  | remove name => some name
  | child _ => none

def child? : Edit → Option Node
  | child node => some node
  | _ => none

end Edit

abbrev History := List Edit

def Element.edited (tag : Text) (history : History) : Element :=
  history.foldl Edit.apply (.new tag)

namespace History

-- The value was set under the name, and nothing was done under the name since.
def Stands (history : History) (name : Text) (value : Property) : Prop :=
  ∃ before behind, history = before ++ .set name value :: behind ∧ ∀ edit ∈ behind, edit.name? ≠ some name

-- At this place of the history the name was set while nothing stood under it, and it was not removed since.
def Since (history : History) (name : Text) (place : Nat) : Prop :=
  ∃ before value behind, history = before ++ .set name value :: behind ∧ before.length = place ∧
    (∀ old, ¬ Stands before name old) ∧ .remove name ∉ behind

def Orders (history : History) (names : List Text) : Prop :=
  names.Pairwise fun first second => ∃ early late, history.Since first early ∧ history.Since second late ∧ early < late

end History

structure Element.Recalls (tag : Text) (history : History) (root : Element) : Prop where
  tagged : root.tag = tag
  children : root.children = history.filterMap Edit.child?
  distinct : root.properties.names.Nodup
  values : ∀ name value, root.property? name = some value ↔ history.Stands name value
  order : history.Orders root.properties.names

structure Element.ChangedAt (name : Text) (root changed : Element) : Prop where
  tag : changed.tag = root.tag
  children : changed.children = root.children
  values : ∀ other, other ≠ name → changed.property? other = root.property? other
  others : changed.properties.besides [name] = root.properties.besides [name]

section Histories

variable {history : History} {name : Text} {value : Property} {place : Nat} {edit : Edit}

theorem stands_nil (name : Text) (value : Property) : ¬ History.Stands [] name value := by
  rintro ⟨before, behind, split, -⟩
  simp at split

theorem stands_snoc : History.Stands (history ++ [edit]) name value ↔
    edit = .set name value ∨ history.Stands name value ∧ edit.name? ≠ some name := by
  constructor
  · rintro ⟨before, behind, split, later⟩
    cases behind using List.reverseRecOn with
    | nil =>
        obtain ⟨-, last⟩ := List.append_inj' split rfl
        exact .inl (List.head_eq_of_cons_eq last)
    | append_singleton behind last _ =>
        obtain ⟨untouched, other⟩ := List.forall_mem_append.mp later
        rw [← List.cons_append, ← List.append_assoc] at split
        obtain ⟨earlier, final⟩ := List.append_inj' split rfl
        obtain rfl : edit = last := List.head_eq_of_cons_eq final
        exact .inr ⟨⟨before, behind, earlier, untouched⟩, other edit List.mem_cons_self⟩
  · rintro (rfl | ⟨⟨before, behind, rfl, untouched⟩, other⟩)
    · exact ⟨history, [], rfl, List.forall_mem_nil _⟩
    · refine ⟨before, behind ++ [edit], by rw [List.append_assoc, List.cons_append], ?_⟩
      exact List.forall_mem_append.mpr ⟨untouched, List.forall_mem_singleton.mpr other⟩

theorem since_new (absent : ∀ old, ¬ history.Stands name old) (value : Property) :
    History.Since (history ++ [.set name value]) name history.length :=
  ⟨history, value, [], rfl, rfl, absent, List.not_mem_nil⟩

theorem since_snoc (since : history.Since name place) (kept : edit ≠ .remove name) : History.Since (history ++ [edit]) name place := by
  obtain ⟨before, value, behind, rfl, counted, absent, unremoved⟩ := since
  refine ⟨before, value, behind ++ [edit], by rw [List.append_assoc, List.cons_append], counted, absent, ?_⟩
  rw [List.mem_append, List.mem_singleton, not_or]
  exact ⟨unremoved, kept.symm⟩

theorem since_inside (since : history.Since name place) : place < history.length := by
  obtain ⟨before, value, behind, rfl, rfl, -, -⟩ := since
  simp

theorem stands_since (stands : history.Stands name value) : ∃ place, history.Since name place := by
  induction history using List.reverseRecOn generalizing value with
  | nil => exact absurd stands (stands_nil name value)
  | append_singleton history edit ih =>
      rcases stands_snoc.mp stands with rfl | ⟨earlier, other⟩
      · by_cases held : ∃ old, History.Stands history name old
        · obtain ⟨old, stood⟩ := held
          obtain ⟨place, since⟩ := ih stood
          exact ⟨place, since_snoc since (by simp)⟩
        · exact ⟨_, since_new (not_exists.mp held) value⟩
      · obtain ⟨place, since⟩ := ih earlier
        refine ⟨place, since_snoc since ?_⟩
        rintro rfl
        exact other rfl

theorem orders_snoc {names : List Text} (ordered : history.Orders names) (kept : ∀ name ∈ names, edit ≠ .remove name) :
    History.Orders (history ++ [edit]) names := by
  refine List.Pairwise.imp_of_mem ?_ ordered
  rintro first second held also ⟨early, late, before, behind, less⟩
  exact ⟨early, late, since_snoc before (kept first held), since_snoc behind (kept second also), less⟩

end Histories

section Removal

variable {properties : Properties} {name : Text} {place : Nat}

theorem place_absent (missing : properties.findIdx? (fun entry => entry.1 = name) = none) : properties.get? name = none := by
  rw [Properties.absent_iff]
  intro held
  obtain ⟨entry, member, named⟩ := List.mem_map.mp held
  have other := List.findIdx?_eq_none_iff.mp missing entry member
  exact absurd named (by simpa using other)

theorem place_found (found : properties.findIdx? (fun entry => entry.1 = name) = some place) :
    properties[place]?.map Prod.snd = properties.get? name ∧ properties.eraseIdx place = properties.erase name := by
  induction properties generalizing place with
  | nil => simp at found
  | cons entry rest ih =>
      rw [List.findIdx?_cons] at found
      by_cases here : entry.1 = name
      · rw [if_pos (decide_eq_true here), Option.some.injEq] at found
        subst found
        exact ⟨(if_pos here).symm, (if_pos here).symm⟩
      · rw [if_neg (by simpa using here), Option.map_eq_some_iff] at found
        obtain ⟨place, later, rfl⟩ := found
        obtain ⟨value, others⟩ := ih later
        refine ⟨value.trans (if_neg here).symm, ?_⟩
        rw [List.eraseIdx_cons_succ, others, Properties.erase, if_neg here]

theorem remove_property (root : Element) (name : Text) : root.removeProperty name = (root.property? name, root.eraseProperty name) := by
  obtain ⟨tag, properties, children⟩ := root
  simp only [Element.removeProperty, Element.property?, Element.eraseProperty]
  split
  · rename_i missing
    have absent := place_absent missing
    rw [absent, Properties.erase_absent absent]
  · rename_i place found
    obtain ⟨value, others⟩ := place_found found
    rw [value, others]

end Removal

section Edits

variable {tag : Text} {history : History} {root : Element}

theorem recalls_new (tag : Text) : Element.Recalls tag [] (.new tag) where
  tagged := rfl
  children := rfl
  distinct := List.nodup_nil
  values name value := by
    constructor
    · intro held
      exact absurd held (by simp [Element.property?, Element.new, Properties.get?])
    · exact fun stands => absurd stands (stands_nil name value)
  order := List.Pairwise.nil

theorem recalls_named (recalls : root.Recalls tag history) {name : Text} :
    name ∈ root.properties.names ↔ ∃ value, history.Stands name value := by
  rw [← not_iff_not, ← Properties.absent_iff, not_exists, Option.eq_none_iff_forall_ne_some]
  exact forall_congr' fun value => not_congr (recalls.values name value)

theorem recalls_set (recalls : root.Recalls tag history) (name : Text) (value : Property) :
    Element.Recalls tag (history ++ [.set name value]) (root.setProperty name value) where
  tagged := recalls.tagged
  children := by
    rw [List.filterMap_append]
    exact recalls.children.trans (List.append_nil _).symm
  distinct := Properties.set_distinct recalls.distinct name value
  values other held := by
    have read : (root.setProperty name value).property? other = if name = other then some value else root.property? other :=
      Properties.get_set name other value root.properties
    rw [read, stands_snoc]
    by_cases same : name = other
    · subst same
      simp [Edit.name?]
    · simp [same, Edit.name?, recalls.values]
  order := by
    have kept (names : List Text) (other : Text) (_ : other ∈ names) : Edit.set name value ≠ .remove other := by simp
    have older := orders_snoc recalls.order (kept root.properties.names)
    by_cases held : name ∈ root.properties.names
    · rwa [Element.setProperty, Properties.set_names, if_pos held]
    · rw [Element.setProperty, Properties.set_names, if_neg held]
      have absent := not_exists.mp fun stands => held ((recalls_named recalls).mpr stands)
      refine List.pairwise_append.mpr ⟨older, List.pairwise_singleton _ _, fun first member last same => ?_⟩
      obtain rfl := List.mem_singleton.mp same
      obtain ⟨old, stands⟩ := (recalls_named recalls).mp member
      obtain ⟨place, since⟩ := stands_since stands
      exact ⟨place, history.length, since_snoc since (by simp), since_new absent value, since_inside since⟩

theorem recalls_remove (recalls : root.Recalls tag history) (name : Text) :
    Element.Recalls tag (history ++ [.remove name]) (root.removeProperty name).2 := by
  have gone := Properties.erase_gone recalls.distinct name
  rw [remove_property]
  constructor
  · exact recalls.tagged
  · rw [List.filterMap_append]
    exact recalls.children.trans (List.append_nil _).symm
  · exact Properties.erase_distinct recalls.distinct name
  · intro other value
    rw [stands_snoc]
    by_cases same : name = other
    · subst same
      have absent : (root.eraseProperty name).property? name = none := Properties.absent_iff.mpr gone
      simp [absent, Edit.name?]
    · have read : (root.eraseProperty name).property? other = root.property? other := Properties.get_erase same root.properties
      simp [read, same, Edit.name?, recalls.values]
  · have shorter : (root.properties.erase name).names.Sublist root.properties.names := by
      rw [Properties.erase_names]
      exact List.erase_sublist
    refine orders_snoc (recalls.order.sublist shorter) fun other member same => ?_
    obtain rfl := Edit.remove.inj same
    exact gone member

theorem recalls_child (recalls : root.Recalls tag history) (node : Node) :
    Element.Recalls tag (history ++ [.child node]) (root.withChild node) where
  tagged := recalls.tagged
  children := by
    rw [List.filterMap_append, ← recalls.children]
    rfl
  distinct := recalls.distinct
  values name value := by
    have read : (root.withChild node).property? name = root.property? name := rfl
    rw [stands_snoc, read]
    simpa [Edit.name?] using recalls.values name value
  order := orders_snoc recalls.order fun name _ => by simp

theorem recalls_edit (recalls : root.Recalls tag history) (edit : Edit) : Element.Recalls tag (history ++ [edit]) (edit.apply root) := by
  cases edit with
  | set name value => exact recalls_set recalls name value
  | remove name => exact recalls_remove recalls name
  | child node => exact recalls_child recalls node

theorem edited_snoc (tag : Text) (history : History) (edit : Edit) :
    Element.edited tag (history ++ [edit]) = edit.apply (Element.edited tag history) := by
  rw [Element.edited, List.foldl_append]
  rfl

theorem edited_recalls (tag : Text) (history : History) : (Element.edited tag history).Recalls tag history := by
  induction history using List.reverseRecOn with
  | nil => exact recalls_new tag
  | append_singleton history edit ih =>
      rw [edited_snoc]
      exact recalls_edit ih edit

end Edits

theorem set_changed (root : Element) (name : Text) (value : Property) : root.ChangedAt name (root.setProperty name value) where
  tag := rfl
  children := rfl
  values other apart := (Properties.get_set name other value root.properties).trans (if_neg apart.symm)
  others := Properties.besides_set List.mem_cons_self value root.properties

theorem remove_changed (root : Element) (name : Text) : root.ChangedAt name (root.removeProperty name).2 := by
  rw [remove_property]
  constructor
  · rfl
  · rfl
  · exact fun other apart => Properties.get_erase apart.symm root.properties
  · exact Properties.besides_erase List.mem_cons_self root.properties

theorem Element.properties_map (tag : Text) (history : History) :
    let root := Element.edited tag history
    root.Recalls tag history ∧
      (∀ name value, root.ChangedAt name (root.setProperty name value) ∧
        (name ∈ root.properties.names → (root.setProperty name value).properties.names = root.properties.names)) ∧
      ∀ name, root.ChangedAt name (root.removeProperty name).2 ∧ (root.removeProperty name).1 = root.property? name ∧
        (root.removeProperty name).2.property? name = none ∧ name ∉ (root.removeProperty name).2.properties.names := by
  intro root
  have recalls := edited_recalls tag history
  refine ⟨recalls, fun name value => ⟨set_changed root name value, fun held => ?_⟩, fun name => ⟨remove_changed root name, ?_⟩⟩
  · rw [Element.setProperty, Properties.set_names, if_pos held]
  · have gone := Properties.erase_gone recalls.distinct name
    rw [remove_property]
    exact ⟨rfl, Properties.absent_iff.mpr gone, gone⟩

example (value : Property) :
    (Element.edited [] [.set ['a'] value, .set ['b'] value, .remove ['a'], .set ['a'] value, .set ['b'] (.str [])]).properties =
      [(['b'], .str []), (['a'], value)] := rfl

end CodeFence
