import DebRelease.Proofs.Toml.Distinct
import Mathlib.Data.List.Forall2
import Mathlib.Data.List.Perm.Basic
import Mathlib.Data.Option.Basic

namespace DebRelease

section Association

variable {β γ : Type} {xs ys : List (String × β)} {name : String} {b : β}

/-- Where names are distinct, looking one up finds what stands beside it. -/
theorem lookup_eq_some_iff (hdistinct : (xs.map Prod.fst).Nodup) : xs.lookup name = some b ↔ (name, b) ∈ xs := by
  induction xs with
  | nil => simp
  | cons x xs ih =>
    obtain ⟨key, value⟩ := x
    obtain ⟨hfresh, hrest⟩ := List.nodup_cons.mp hdistinct
    rw [List.lookup_cons, List.mem_cons, Prod.mk.injEq]
    by_cases hname : name = key
    · subst hname
      have hother : (name, b) ∉ xs := fun hmem => hfresh (List.mem_map.mpr ⟨(name, b), hmem, rfl⟩)
      simp [hother, eq_comm]
    · rw [beq_false_of_ne hname]
      simp [hname, ih hrest]

/-- Where names are distinct, their order does not matter. -/
theorem lookup_of_perm (hperm : xs.Perm ys) (hdistinct : (xs.map Prod.fst).Nodup) (name : String) :
    xs.lookup name = ys.lookup name := by
  apply Option.ext
  intro b
  have hdistinct' : (ys.map Prod.fst).Nodup := (hperm.map Prod.fst).nodup hdistinct
  rw [lookup_eq_some_iff hdistinct, lookup_eq_some_iff hdistinct', hperm.mem_iff]

/-- What two lists with the same names have for one of them is related as their elements are. -/
theorem lookup_rel {R : String → β → γ → Prop} {zs : List (String × γ)}
    (h : List.Forall₂ (fun x z => x.1 = z.1 ∧ R x.1 x.2 z.2) xs zs) (name : String) :
    Option.Rel (R name) (xs.lookup name) (zs.lookup name) := by
  induction h with
  | nil => exact .none
  | @cons x z xs zs hhead _ ih =>
    obtain ⟨key, b⟩ := x
    obtain ⟨key', c⟩ := z
    obtain ⟨rfl, hrelated⟩ : key = key' ∧ R key b c := hhead
    rw [List.lookup_cons, List.lookup_cons]
    cases hkey : name == key with
    | true =>
      rw [eq_of_beq hkey]
      exact .some hrelated
    | false => exact ih

theorem forall₂_zip {R : β → γ → Prop} {bs : List β} {cs : List γ} (h : List.Forall₂ R bs cs) (names : List String) :
    List.Forall₂ (fun x z => x.1 = z.1 ∧ R x.2 z.2) (names.zip bs) (names.zip cs) := by
  induction h generalizing names with
  | nil => simp
  | cons hhead _ ih =>
    cases names with
    | nil => exact .nil
    | cons name names => exact .cons ⟨rfl, hhead⟩ (ih names)

/-- Mapping lists whose elements go to the same. -/
theorem mapM_congr {f : β → Option γ} {bs bs' : List β} (h : List.Forall₂ (fun b b' => f b = f b') bs bs') :
    bs.mapM f = bs'.mapM f := by
  induction h with
  | nil => rfl
  | cons hhead _ ih => rw [List.mapM_cons, List.mapM_cons, hhead, ih]

end Association

namespace Toml

variable {members members' : Members} {name : String} {v w : Value}

/-- The text that a value is. -/
def Value.text? : Value → Option String
  | .string _ s => some s
  | _ => none

/-- The texts that a value is a list of. -/
def Value.texts? : Value → Option (List String)
  | .array _ _ items => items.mapM Value.text?
  | _ => none

/-- The names in a table, each with its value. -/
def Members.entries (members : Members) : List (String × Value) :=
  members.map fun m => (m.1.name, m.2)

theorem Members.map_fst_entries (members : Members) : members.entries.map Prod.fst = members.names := by
  rw [entries, List.map_map]
  rfl

theorem Members.get?_eq_lookup (members : Members) (name : String) :
    members.get? name = members.entries.lookup name := by
  induction members with
  | nil => rfl
  | cons m members ih =>
    rw [entries, List.map_cons, List.lookup_cons, get?, List.find?_cons, BEq.comm]
    cases name == m.1.name with
    | true => rfl
    | false => exact ih

theorem Members.name_mem_names {m : Key × Value} (h : m ∈ members) : m.1.name ∈ members.names :=
  List.mem_map_of_mem h

/-- Two values say the same. In tables, it is the values of each name that do, in whatever order the names are. -/
inductive Value.Alike : Value → Value → Prop where
  | string {here there : Span} {s : String} : Alike (.string here s) (.string there s)
  | integer {here there : Span} {n : Int} : Alike (.integer here n) (.integer there n)
  | float {here there : Span} {x : Option Float} : Alike (.float here x) (.float there x)
  | boolean {here there : Span} {b : Bool} : Alike (.boolean here b) (.boolean there b)
  | datetime {here there : Span} : Alike (.datetime here) (.datetime there)
  | array {here there : Span} {ofTables ofTables' : Bool} {xs ys : List Value} (length : xs.length = ys.length)
      (items : ∀ (i : Nat) x y, xs[i]? = some x → ys[i]? = some y → Alike x y) :
      Alike (.array here ofTables xs) (.array there ofTables' ys)
  | table {here there : Span} {how how' : TableKind} {ms ns : Members} (names : ms.names.Perm ns.names)
      (values : ∀ m ∈ ms, ∀ n ∈ ns, m.1.name = n.1.name → Alike m.2 n.2) :
      Alike (.table here how ms) (.table there how' ns)

/-- Two tables say the same. -/
structure Members.Alike (members members' : Members) : Prop where
  names : members.names.Perm members'.names
  values : ∀ m ∈ members, ∀ n ∈ members', m.1.name = n.1.name → m.2.Alike n.2

namespace Value.Alike

theorem symm (h : v.Alike w) : w.Alike v := by
  induction h with
  | string => exact .string
  | integer => exact .integer
  | float => exact .float
  | boolean => exact .boolean
  | datetime => exact .datetime
  | array hlength _ ih => exact .array hlength.symm fun i y x hy hx => ih i x y hx hy
  | table hnames _ ih => exact .table hnames.symm fun n hn m hm hname => ih m hm n hn hname.symm

theorem forall₂ {xs ys : List Value} (length : xs.length = ys.length)
    (items : ∀ (i : Nat) x y, xs[i]? = some x → ys[i]? = some y → x.Alike y) : List.Forall₂ Value.Alike xs ys := by
  refine List.forall₂_iff_get.mpr ⟨length, fun i hx hy => ?_⟩
  exact items i _ _ (List.getElem?_eq_getElem hx) (List.getElem?_eq_getElem hy)

theorem text?_eq (h : v.Alike w) : v.text? = w.text? := by
  cases h <;> rfl

theorem texts?_eq (h : v.Alike w) : v.texts? = w.texts? := by
  cases h with
  | array hlength hitems =>
    exact mapM_congr ((forall₂ hlength hitems).imp fun x y => text?_eq)
  | string | integer | float | boolean | datetime | table => rfl

end Value.Alike

namespace Members.Alike

theorem symm (h : members.Alike members') : members'.Alike members :=
  ⟨h.names.symm, fun n hn m hm hname => (h.values m hm n hn hname.symm).symm⟩

/-- A key of one table is one of the other, with a value that says the same. -/
theorem exists_mem (h : members.Alike members') {m : Key × Value} (hm : m ∈ members) :
    ∃ n ∈ members', m.1.name = n.1.name ∧ m.2.Alike n.2 := by
  obtain ⟨n, hn, hname⟩ := List.mem_map.mp (h.names.mem_iff.mp (name_mem_names hm))
  exact ⟨n, hn, hname.symm, h.values m hm n hn hname.symm⟩

/-- Looking a name up finds values that say the same, or nothing in either table. -/
theorem get? (h : members.Alike members') (name : String) :
    Option.Rel Value.Alike (members.get? name) (members'.get? name) := by
  cases hv : members.get? name with
  | none =>
    have hnone : members'.get? name = none := by
      rw [get?_eq_none_iff, ← h.names.mem_iff]
      exact get?_eq_none_iff.mp hv
    rw [hnone]
    exact .none
  | some v =>
    obtain ⟨key, hm, rfl⟩ := mem_of_get? hv
    cases hw : members'.get? key.name with
    | none =>
      have hnot := get?_eq_none_iff.mp hw
      exact absurd (h.names.mem_iff.mp (name_mem_names hm)) hnot
    | some w =>
      obtain ⟨key', hn, hname⟩ := mem_of_get? hw
      exact .some (h.values _ hm _ hn hname.symm)

end Members.Alike

end Toml

end DebRelease
