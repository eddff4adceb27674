import DebRelease.Toml.Document
import Mathlib.Data.List.Nodup

namespace DebRelease.Toml

variable {α β : Type} {members inner before after : Members} {name : String} {key : Key} {v : Value}

namespace Members

/-- The names in a table, in order. -/
def names (members : Members) : List String :=
  members.map (·.1.name)

@[simp] theorem names_append (members more : Members) : (members ++ more).names = members.names ++ more.names :=
  List.map_append

theorem get?_eq_none_iff : members.get? name = none ↔ name ∉ members.names := by
  simp [get?, names]

theorem mem_of_get? (h : members.get? name = some v) : ∃ key, (key, v) ∈ members ∧ key.name = name := by
  obtain ⟨⟨key, found⟩, hfound, rfl⟩ := Option.map_eq_some_iff.mp h
  exact ⟨key, List.mem_of_find?_eq_some hfound, by simpa using List.find?_some hfound⟩

theorem names_replace (members : Members) (name : String) (v : Value) :
    (members.replace name v).names = members.names := by
  rw [names, replace, List.map_map]
  rfl

end Members

/-- In no table of a value is a name twice. -/
inductive Value.Distinct : Value → Prop where
  | string (span : Span) (text : String) : Distinct (.string span text)
  | integer (span : Span) (n : Int) : Distinct (.integer span n)
  | float (span : Span) (x : Option Float) : Distinct (.float span x)
  | boolean (span : Span) (b : Bool) : Distinct (.boolean span b)
  | datetime (span : Span) : Distinct (.datetime span)
  | array {span : Span} {ofTables : Bool} {items : List Value} (distinct : ∀ v ∈ items, Distinct v) :
      Distinct (.array span ofTables items)
  | table {span : Span} {kind : TableKind} {members : Members} (names : members.names.Nodup)
      (values : ∀ m ∈ members, Distinct m.2) : Distinct (.table span kind members)

/-- In a table, and in no table inside it, is a name twice. -/
structure Members.Distinct (members : Members) : Prop where
  names : members.names.Nodup
  values : ∀ m ∈ members, m.2.Distinct

namespace Members.Distinct

theorem nil : Members.Distinct [] :=
  ⟨List.nodup_nil, fun _ hmem => absurd hmem List.not_mem_nil⟩

theorem table (h : members.Distinct) (span : Span) (kind : TableKind) : (Value.table span kind members).Distinct :=
  .table h.names h.values

theorem of_table {span : Span} {kind : TableKind} (h : (Value.table span kind members).Distinct) :
    members.Distinct := by
  cases h with
  | table names values => exact ⟨names, values⟩

theorem items_of_array {span : Span} {ofTables : Bool} {items : List Value}
    (h : (Value.array span ofTables items).Distinct) : ∀ v ∈ items, v.Distinct := by
  cases h with
  | array distinct => exact distinct

theorem get? (h : members.Distinct) (hget : members.get? name = some v) : v.Distinct := by
  obtain ⟨key, hmem, -⟩ := mem_of_get? hget
  exact h.values _ hmem

theorem concat (h : members.Distinct) (hnone : members.get? key.name = none) (hv : v.Distinct) :
    Members.Distinct (members ++ [(key, v)]) where
  names := by
    rw [names_append]
    refine h.names.append (List.nodup_singleton _) ?_
    exact List.disjoint_singleton.mpr (get?_eq_none_iff.mp hnone)
  values m hmem := by
    obtain hold | rfl := List.mem_append.mp hmem |>.imp_right List.mem_singleton.mp
    · exact h.values m hold
    · exact hv

theorem replace (h : members.Distinct) (hv : v.Distinct) (name : String) : (members.replace name v).Distinct where
  names := by
    rw [names_replace]
    exact h.names
  values m hmem := by
    obtain ⟨⟨key, old⟩, hold, rfl⟩ := List.mem_map.mp hmem
    dsimp only
    split
    · exact hv
    · exact h.values _ hold

theorem erase (h : members.Distinct) (name : String) : (Members.erase members name).Distinct where
  names := h.names.sublist (List.filter_sublist.map _)
  values m hmem := h.values m (List.mem_of_mem_filter hmem)

/-- Changing the table that keys lead to. -/
theorem updateAt {dotted : Bool} {change : TableKind → Members → Option Members}
    (hchange : ∀ kind before after, before.Distinct → change kind before = some after → after.Distinct)
    {keys : List Key} {kind : TableKind} (h : before.Distinct)
    (hupdate : before.updateAt dotted change keys kind = some after) : after.Distinct := by
  induction keys generalizing kind before after with
  | nil => exact hchange kind before after h hupdate
  | cons key keys ih =>
    rw [Members.updateAt] at hupdate
    split at hupdate
    · rename_i hnone
      obtain ⟨inner, hinner, heq⟩ := Option.bind_eq_some_iff.mp hupdate
      cases heq
      exact h.concat hnone ((ih nil hinner).table _ _)
    · rename_i span how inner hget
      split at hupdate
      · cases hupdate
      obtain ⟨changed, hchanged, heq⟩ := Option.bind_eq_some_iff.mp hupdate
      cases heq
      exact h.replace ((ih (of_table (h.get? hget)) hchanged).table _ _) _
    · rename_i span items hget
      have hitems := items_of_array (h.get? hget)
      split at hupdate
      · rename_i lastSpan how inner hlast
        split at hupdate
        · cases hupdate
        obtain ⟨changed, hchanged, heq⟩ := Option.bind_eq_some_iff.mp hupdate
        cases heq
        have hinner : Members.Distinct inner := of_table (hitems _ (List.mem_of_getLast? hlast))
        refine h.replace (.array fun v hmem => ?_) _
        obtain hold | rfl := List.mem_append.mp hmem |>.imp_right List.mem_singleton.mp
        · exact hitems v (List.dropLast_subset _ hold)
        · exact (ih hinner hchanged).table _ _
      · cases hupdate
    · cases hupdate

theorem insert {path : List Key} (h : before.Distinct) (hv : v.Distinct)
    (hinsert : before.insert path key v = some after) : after.Distinct := by
  refine h.updateAt (fun kind before after hbefore hchange => ?_) hinsert
  split at hchange
  · cases hchange
  split at hchange
  · cases hchange
  · rename_i hnone
    cases hchange
    exact hbefore.concat (Option.not_isSome_iff_eq_none.mp hnone) hv

theorem beginTable {path : List Key} {span : Span} (h : before.Distinct)
    (hbegin : before.beginTable path key span = some after) : after.Distinct := by
  refine h.updateAt (fun kind before after hbefore hchange => ?_) hbegin
  split at hchange
  · rename_i hnone
    cases hchange
    exact hbefore.concat hnone (nil.table _ _)
  · rename_i first inner hget
    cases hchange
    refine (hbefore.erase key.name).concat ?_ ((of_table (hbefore.get? hget)).table _ _)
    rw [get?_eq_none_iff]
    simp [Members.names, Members.erase]
  · cases hchange

theorem beginItem {path : List Key} {span : Span} (h : before.Distinct)
    (hbegin : before.beginItem path key span = some after) : after.Distinct := by
  refine h.updateAt (fun kind before after hbefore hchange => ?_) hbegin
  split at hchange
  · rename_i hnone
    cases hchange
    exact hbefore.concat hnone (.array (List.forall_mem_singleton.mpr (nil.table _ _)))
  · rename_i first items hget
    cases hchange
    refine hbefore.replace (.array fun v hmem => ?_) _
    obtain hold | rfl := List.mem_append.mp hmem |>.imp_right List.mem_singleton.mp
    · exact items_of_array (hbefore.get? hget) v hold
    · exact nil.table _ _
  · cases hchange

end Members.Distinct

/-- What a reader reads, if it reads anything, satisfies a condition. -/
def Yields (r : Reader α) (p : α → Prop) : Prop :=
  ∀ c a rest, r.run c = some (a, rest) → p a

section Readers

variable {r : Reader α} {f : α → Reader β} {p : α → Prop} {q : β → Prop}

theorem yields_pure {a : α} (h : p a) : Yields (pure a) p := by
  intro c a rest hrun
  cases hrun
  exact h

theorem yields_failure : Yields (failure : Reader α) p := by
  intro c a rest hrun
  cases hrun

theorem Yields.bind (hr : Yields r p) (hf : ∀ a, p a → Yields (f a) q) : Yields (r >>= f) q := by
  intro c b rest hrun
  obtain ⟨⟨a, next⟩, ha, hb⟩ := Option.bind_eq_some_iff.mp hrun
  exact hf a (hr c a next ha) next b rest hb

/-- What is read first plays no part. -/
theorem yields_after (hf : ∀ a, Yields (f a) q) : Yields (r >>= f) q := by
  have hr : Yields r fun _ => True := fun _ _ _ _ => trivial
  exact hr.bind fun a _ => hf a

theorem yields_require {found : Option α} (h : ∀ a, found = some a → p a) : Yields (require found) p := by
  cases found with
  | none => exact yields_failure
  | some a => exact yields_pure (h a rfl)

theorem Yields.spanned (hr : Yields r p) : Yields (Reader.spanned r) fun found => p found.1 := by
  rw [Reader.spanned]
  refine yields_after fun start => hr.bind fun a ha => ?_
  exact yields_after fun stop => yields_pure ha

end Readers

theorem yields_word : Yields word Value.Distinct := by
  unfold word
  refine yields_after fun ⟨bytes, span⟩ => ?_
  dsimp only
  split
  · exact yields_pure (.boolean span true)
  split
  · exact yields_pure (.boolean span false)
  split
  · exact yields_pure (.integer span _)
  split
  · exact yields_pure (.float span _)
  split
  · exact yields_pure (.datetime span)
  · exact yields_failure

theorem yields_leaf : Yields leaf Value.Distinct := by
  have hstring : Yields (Reader.spanned string >>= fun found => pure (Value.string found.2 found.1)) Value.Distinct :=
    yields_after fun found => yields_pure (.string found.2 found.1)
  unfold leaf
  refine yields_after fun b => ?_
  split
  · exact hstring
  · exact hstring
  · exact yields_word

section Nested

variable {item : Reader Value}

theorem yields_arrayItems (hitem : Yields item Value.Distinct) (fuel : Nat) :
    Yields (arrayItems item fuel) fun items => ∀ v ∈ items, v.Distinct := by
  induction fuel with
  | zero => exact yields_failure
  | succ fuel ih =>
    unfold arrayItems
    refine yields_after fun _ => yields_after fun ended => ?_
    split
    · exact yields_pure fun v hmem => absurd hmem List.not_mem_nil
    refine hitem.bind fun v hv => yields_after fun _ => yields_after fun more => ?_
    split
    · exact ih.bind fun others hothers => yields_pure (List.forall_mem_cons.mpr ⟨hv, hothers⟩)
    · exact yields_after fun _ => yields_pure (List.forall_mem_singleton.mpr hv)

theorem yields_assignment (hitem : Yields item Value.Distinct) :
    Yields (assignment item) fun found => found.2.2.Distinct := by
  unfold assignment
  refine yields_after fun keys => yields_after fun ⟨path, key⟩ => yields_after fun _ => yields_after fun _ => ?_
  exact hitem.bind fun v hv => yields_pure hv

theorem yields_inlineMembers (hitem : Yields item Value.Distinct) {known : Members} (hknown : known.Distinct)
    (fuel : Nat) : Yields (inlineMembers item known fuel) Members.Distinct := by
  induction fuel generalizing known with
  | zero => exact yields_failure
  | succ fuel ih =>
    unfold inlineMembers
    refine yields_after fun _ => yields_after fun ended => ?_
    split
    · exact yields_pure hknown
    refine (yields_assignment hitem).bind fun ⟨path, key, v⟩ hv => ?_
    refine (yields_require fun next hnext => hknown.insert hv hnext).bind fun next hnext => ?_
    refine yields_after fun _ => yields_after fun more => ?_
    split
    · exact ih hnext
    · exact yields_after fun _ => yields_pure hnext

end Nested

theorem yields_value (depth : Nat) : Yields (value depth) Value.Distinct := by
  induction depth with
  | zero => exact yields_leaf
  | succ depth ih =>
    unfold value
    refine yields_after fun left => yields_after fun b => ?_
    split
    · exact (yields_after fun _ => yields_arrayItems ih _).spanned.bind fun _ hitems => yields_pure (.array hitems)
    · have hmembers := fun rounds => yields_inlineMembers ih Members.Distinct.nil rounds
      exact (yields_after fun _ => hmembers _).spanned.bind fun _ hfound => yields_pure (hfound.table _ _)
    · exact yields_leaf

theorem yields_header {d : Draft} (hd : d.members.Distinct) : Yields (header d) fun next => next.members.Distinct := by
  unfold header
  refine yields_after fun ⟨⟨keys, many⟩, span⟩ => yields_after fun ⟨path, key⟩ => ?_
  refine Yields.bind (yields_require fun members hmembers => ?_) fun members hdistinct => yields_pure hdistinct
  split at hmembers
  · exact hd.beginItem hmembers
  · exact hd.beginTable hmembers

theorem yields_statement {d : Draft} (hd : d.members.Distinct) :
    Yields (statement d) fun next => next.members.Distinct := by
  unfold statement
  refine yields_after fun _ => yields_after fun b => ?_
  split
  iterate 4 exact yields_pure hd
  · exact yields_header hd
  · refine (yields_assignment (yields_value nestingLimit)).bind fun ⟨path, key, v⟩ hv => ?_
    refine yields_require fun next hnext => ?_
    obtain ⟨members, hmembers, rfl⟩ := Option.map_eq_some_iff.mp hnext
    exact hd.updateAt (fun _ before after hbefore hinsert => hbefore.insert hv hinsert) hmembers

theorem yields_statements {d : Draft} (hd : d.members.Distinct) (fuel : Nat) :
    Yields (statements fuel d) fun last => last.members.Distinct := by
  induction fuel generalizing d with
  | zero => exact yields_pure hd
  | succ fuel ih =>
    unfold statements
    refine yields_after fun left => ?_
    split
    · exact yields_pure hd
    · exact (yields_statement hd).bind fun next hnext => yields_after fun _ => ih hnext

/-- No table of a document has a key twice. -/
theorem distinct_parse {bytes : Bytes} (h : parse? bytes = some members) : members.Distinct := by
  obtain ⟨⟨found, rest⟩, hrun, rfl⟩ := Option.map_eq_some_iff.mp h
  refine (yields_after fun _ => yields_after fun left => ?_ : Yields _ Members.Distinct) _ _ _ hrun
  exact (yields_statements Members.Distinct.nil _).bind fun last hlast => yields_pure hlast

end DebRelease.Toml
