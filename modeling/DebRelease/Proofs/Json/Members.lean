import DebRelease.Json.Value

namespace DebRelease.Json.Members

variable {members : Members} {key : String} {value : Value} {member : String × Value}

/-- The keys of an object, in order. -/
def keys (members : Members) : List String :=
  members.map Prod.fst

/-- `after` is `before` with the value of a key set. The key keeps its place, or takes the last one if it has none;
    the members before and after it are the same. -/
def IsSet (key : String) (value : Value) (before after : Members) : Prop :=
  (∃ front old back, before = front ++ (key, old) :: back ∧ after = front ++ (key, value) :: back ∧
    key ∉ keys front ∧ key ∉ keys back) ∨
  (key ∉ keys before ∧ after = before ++ [(key, value)])

theorem set_cons_self (key : String) (old value : Value) (rest : Members) :
    set ((key, old) :: rest) key value = (key, value) :: rest := by
  rw [set, if_pos rfl]

theorem set_cons_of_ne {k : String} (hne : k ≠ key) (v value : Value) (rest : Members) :
    set ((k, v) :: rest) key value = (k, v) :: set rest key value := by
  rw [set, if_neg hne]

/-- A key that is not there is put at the end. -/
theorem set_of_not_mem (h : key ∉ keys members) : members.set key value = members ++ [(key, value)] := by
  induction members with
  | nil => rfl
  | cons member rest ih =>
    obtain ⟨k, v⟩ := member
    rw [set_cons_of_ne (List.ne_of_not_mem_cons h).symm, ih (List.not_mem_of_not_mem_cons h), List.cons_append]

/-- Of two settings of a key the later one stays. -/
theorem set_set (members : Members) (key : String) (value next : Value) :
    (members.set key value).set key next = members.set key next := by
  induction members with
  | nil => rw [set, set_cons_self, set]
  | cons member rest ih =>
    obtain ⟨k, v⟩ := member
    by_cases hkey : k = key
    · rw [hkey, set_cons_self, set_cons_self, set_cons_self]
    · rw [set_cons_of_ne hkey, set_cons_of_ne hkey, set_cons_of_ne hkey, ih]

theorem mem_of_mem_set (h : member ∈ members.set key value) : member = (key, value) ∨ member ∈ members := by
  induction members with
  | nil => exact .inl (List.mem_singleton.mp h)
  | cons first rest ih =>
    obtain ⟨k, v⟩ := first
    by_cases hkey : k = key
    · rw [hkey, set_cons_self, List.mem_cons] at h
      exact h.imp_right (List.mem_cons_of_mem _)
    · rw [set_cons_of_ne hkey, List.mem_cons] at h
      obtain rfl | h := h
      · exact .inr List.mem_cons_self
      · exact (ih h).imp_right (List.mem_cons_of_mem _)

/-- Of distinct keys one is set. -/
theorem isSet_set (hdistinct : (keys members).Nodup) (key : String) (value : Value) :
    IsSet key value members (members.set key value) := by
  induction members with
  | nil => exact .inr ⟨List.not_mem_nil, rfl⟩
  | cons member rest ih =>
    obtain ⟨k, v⟩ := member
    obtain ⟨hfresh, hrest⟩ := List.nodup_cons.mp hdistinct
    by_cases hkey : k = key
    · subst hkey
      exact .inl ⟨[], v, rest, rfl, set_cons_self k v value rest, List.not_mem_nil, hfresh⟩
    · rw [set_cons_of_ne hkey]
      obtain ⟨front, old, back, hbefore, hafter, hfront, hback⟩ | ⟨hnew, hafter⟩ := ih hrest
      · exact .inl ⟨(k, v) :: front, old, back, by rw [hbefore, List.cons_append], by rw [hafter, List.cons_append],
          List.not_mem_cons_of_ne_of_not_mem (Ne.symm hkey) hfront, hback⟩
      · exact .inr ⟨List.not_mem_cons_of_ne_of_not_mem (Ne.symm hkey) hnew, by rw [hafter, List.cons_append]⟩

/-- Distinct keys stay distinct. -/
theorem nodup_set (hdistinct : (keys members).Nodup) (key : String) (value : Value) :
    (keys (members.set key value)).Nodup := by
  obtain ⟨front, old, back, rfl, hafter, -, -⟩ | ⟨hnew, hafter⟩ := isSet_set hdistinct key value
  · simpa [keys, hafter] using hdistinct
  · rw [hafter, keys, List.map_append, List.nodup_append]
    refine ⟨hdistinct, by simp, ?_⟩
    intro k hk last hlast hsame
    rw [List.map_singleton, List.mem_singleton] at hlast
    rw [hsame, hlast] at hk
    exact hnew hk

end DebRelease.Json.Members
