import DebRelease.Proofs.Json.Members
import DebRelease.Proofs.Json.Number
import DebRelease.Proofs.Outcome

namespace DebRelease.Json

variable {depth fuel : Nat} {v : Value} {known found : Members} {xs : List Value} {bytes rest : Bytes}
  {item : Bytes → Except Fault (Value × Bytes)}

/-- A value of at most `depth` nested arrays and objects in which whole numbers can be read and keys are distinct. -/
inductive Value.Formed : Nat → Value → Prop
  | null {depth : Nat} : Formed depth .null
  | bool {depth : Nat} (b : Bool) : Formed depth (.bool b)
  | number {depth : Nat} {n : Number} (readable : n.IsReadable) : Formed depth (.number n)
  | string {depth : Nat} (s : String) : Formed depth (.string s)
  | array {depth : Nat} {items : List Value} (formed : ∀ v ∈ items, Formed depth v) : Formed (depth + 1) (.array items)
  | object {depth : Nat} {members : Members} (distinct : members.keys.Nodup)
      (formed : ∀ m ∈ members, Formed depth m.2) : Formed (depth + 1) (.object members)

/-- A reader whose values are well formed. -/
private def ReadsFormed (depth : Nat) (item : Bytes → Except Fault (Value × Bytes)) : Prop :=
  ∀ {bytes v rest}, item bytes = .ok (v, rest) → v.Formed depth

private theorem formed_items (hitem : ReadsFormed depth item) (h : items item fuel bytes = .ok (xs, rest)) :
    ∀ v ∈ xs, v.Formed depth := by
  induction fuel generalizing bytes xs with
  | zero => cases h
  | succ fuel ih =>
    rw [items] at h
    split at h
    · cases h
    split at h
    · cases h
      exact fun _ hmem => absurd hmem List.not_mem_nil
    split at h
    · split at h
      · cases h
      split at h
      · cases h
      obtain ⟨⟨first, after⟩, hfirst, h⟩ := bind_eq_ok_iff.mp h
      obtain ⟨⟨others, after⟩, hothers, h⟩ := bind_eq_ok_iff.mp h
      cases h
      exact List.forall_mem_cons.mpr ⟨hitem hfirst, ih hothers⟩
    · cases h

private theorem formed_array (hitem : ReadsFormed depth item) (h : array item bytes = .ok (xs, rest)) :
    ∀ v ∈ xs, v.Formed depth := by
  rw [array] at h
  split at h
  · cases h
  split at h
  · cases h
    exact fun _ hmem => absurd hmem List.not_mem_nil
  · obtain ⟨⟨first, after⟩, hfirst, h⟩ := bind_eq_ok_iff.mp h
    obtain ⟨⟨others, after⟩, hothers, h⟩ := bind_eq_ok_iff.mp h
    cases h
    exact List.forall_mem_cons.mpr ⟨hitem hfirst, formed_items hitem hothers⟩

private theorem formed_member {m : String × Value} (hitem : ReadsFormed depth item)
    (h : member item bytes = .ok (m, rest)) : m.2.Formed depth := by
  rw [member] at h
  obtain ⟨⟨key, after⟩, -, h⟩ := bind_eq_ok_iff.mp h
  dsimp only at h
  split at h
  · cases h
  split at h
  · obtain ⟨⟨v, after⟩, hv, h⟩ := bind_eq_ok_iff.mp h
    cases h
    exact hitem hv
  · cases h

/-- What the members read so far satisfy, all do. -/
private theorem formed_members (hitem : ReadsFormed depth item) (hdistinct : known.keys.Nodup)
    (hformed : ∀ m ∈ known, m.2.Formed depth) (h : members item known fuel bytes = .ok (found, rest)) :
    found.keys.Nodup ∧ ∀ m ∈ found, m.2.Formed depth := by
  induction fuel generalizing bytes known with
  | zero => cases h
  | succ fuel ih =>
    rw [members] at h
    split at h
    · cases h
    split at h
    · cases h
      exact ⟨hdistinct, hformed⟩
    split at h
    · split at h
      · cases h
      split at h
      · obtain ⟨⟨⟨key, v⟩, after⟩, hread, h⟩ := bind_eq_ok_iff.mp h
        refine ih (Members.nodup_set hdistinct key v) (fun m hmem => ?_) h
        obtain rfl | hmem := Members.mem_of_mem_set hmem
        · exact formed_member hitem hread
        · exact hformed m hmem
      split at h
      · cases h
      · cases h
    · cases h

private theorem formed_object (hitem : ReadsFormed depth item) (h : object item bytes = .ok (found, rest)) :
    found.keys.Nodup ∧ ∀ m ∈ found, m.2.Formed depth := by
  rw [object] at h
  split at h
  · cases h
  split at h
  · cases h
    exact ⟨List.nodup_nil, fun _ hmem => absurd hmem List.not_mem_nil⟩
  split at h
  · obtain ⟨⟨⟨key, v⟩, after⟩, hread, h⟩ := bind_eq_ok_iff.mp h
    refine formed_members hitem (by simp [Members.keys]) (fun m hmem => ?_) h
    rw [List.mem_singleton.mp hmem]
    exact formed_member hitem hread
  · cases h

private theorem formed_word {s : Bytes} (hv : v.Formed depth) {found : Value}
    (h : word v s bytes = .ok (found, rest)) : found.Formed depth := by
  induction s generalizing bytes with
  | nil =>
    cases h
    exact hv
  | cons w s ih =>
    cases bytes with
    | nil => cases h
    | cons b bytes =>
      rw [word] at h
      split at h
      · exact ih h
      · cases h

private theorem formed_step (hitem : ∀ inner, depth = inner + 1 → ReadsFormed inner (value inner))
    (h : value depth bytes = .ok (v, rest)) : v.Formed depth := by
  rw [value] at h
  split at h
  · cases h
  split at h
  · exact formed_word .null h
  · exact formed_word (.bool true) h
  · exact formed_word (.bool false) h
  · obtain ⟨_, hnumber, heq⟩ := map_eq_ok_iff.mp h
    cases heq
    exact .number (isReadable_number hnumber)
  · obtain ⟨_, -, heq⟩ := map_eq_ok_iff.mp h
    cases heq
    exact .string _
  · cases h
  · cases h
  · obtain ⟨_, harray, heq⟩ := map_eq_ok_iff.mp h
    cases heq
    exact .array (formed_array (hitem _ rfl) harray)
  · obtain ⟨_, hobject, heq⟩ := map_eq_ok_iff.mp h
    cases heq
    obtain ⟨hdistinct, hformed⟩ := formed_object (hitem _ rfl) hobject
    exact .object hdistinct hformed
  split at h
  · obtain ⟨_, hnumber, heq⟩ := map_eq_ok_iff.mp h
    cases heq
    exact .number (isReadable_number hnumber)
  · cases h

/-- What is read is well formed. -/
theorem formed_value (h : value depth bytes = .ok (v, rest)) : v.Formed depth := by
  induction depth generalizing bytes v rest with
  | zero => exact formed_step (fun _ hinner => nomatch hinner) h
  | succ depth ih =>
    refine formed_step (fun inner hinner => ?_) h
    obtain rfl := Nat.succ.inj hinner
    exact ih

/-- What a document holds is well formed. -/
theorem formed_parse (h : parse bytes = .ok v) : v.Formed nestingLimit := by
  rw [parse, document] at h
  cases hread : value nestingLimit bytes with
  | error fault =>
    rw [hread] at h
    cases h
  | ok found =>
    obtain ⟨found, rest⟩ := found
    rw [hread] at h
    dsimp only [bind, Except.bind] at h
    split at h
    · cases h
      exact formed_value hread
    · cases h

end DebRelease.Json
