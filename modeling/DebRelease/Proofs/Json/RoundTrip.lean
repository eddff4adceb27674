import DebRelease.Proofs.Json.Formed
import DebRelease.Proofs.Json.Text

namespace DebRelease.Json

variable {depth level : Nat} {v : Value} {more : Members} {xs : List Value} {rest : Bytes} {b : UInt8}

/-- A value all of whose numbers are whole numbers. -/
inductive Value.IsWhole : Value → Prop
  | null : IsWhole .null
  | bool (b : Bool) : IsWhole (.bool b)
  | number (n : Int) : IsWhole (.number (.integer n))
  | string (s : String) : IsWhole (.string s)
  | array {items : List Value} (whole : ∀ v ∈ items, v.IsWhole) : IsWhole (.array items)
  | object {members : Members} (whole : ∀ m ∈ members, m.2.IsWhole) : IsWhole (.object members)

private theorem skipBlanks_newLine (level : Nat) (rest : Bytes) :
    skipBlanks (Bytes.ofChars (newLine level) ++ rest) = skipBlanks rest := by
  have hspaces (n : Nat) : Bytes.ofChars (List.replicate n ' ') = List.replicate n (Bytes.ascii ' ') := by
    induction n with
    | zero => rfl
    | succ n ih => rw [List.replicate_succ, Bytes.ofChars_cons_ascii (by decide), ih, List.replicate_succ]
  have hblank : ∀ b ∈ Bytes.ofChars (newLine level), isBlank b = true := by
    rw [newLine, Bytes.ofChars_cons_ascii (by decide), hspaces]
    simp only [List.mem_cons, List.mem_replicate, forall_eq_or_imp]
    exact ⟨by decide, by rintro b ⟨-, rfl⟩; decide⟩
  rw [skipBlanks, List.dropWhile_append_of_pos hblank, skipBlanks]

private theorem skipBlanks_cons (hb : isBlank b = false) (rest : Bytes) : skipBlanks (b :: rest) = b :: rest := by
  rw [skipBlanks, List.dropWhile_cons_of_neg (by simp [hb])]

private theorem word_self (v : Value) (s rest : Bytes) : word v s (s ++ rest) = .ok (v, rest) := by
  induction s with
  | nil => cases rest <;> rfl
  | cons b s ih => rw [List.cons_append, word, beq_self_eq_true, if_pos rfl, ih]

private theorem value_null (depth : Nat) (rest : Bytes) :
    value depth (Bytes.ofChars "null".toList ++ rest) = .ok (.null, rest) := by
  change value depth (Bytes.ascii 'n' :: (Bytes.ofChars "ull".toList ++ rest)) = _
  rw [value, skipBlanks_cons (by decide), ← Bytes.ofText_eq]
  exact word_self .null (Bytes.ofText "ull") rest

private theorem value_bool (depth level : Nat) (b : Bool) (rest : Bytes) :
    value depth (Bytes.ofChars ((Value.bool b).text level) ++ rest) = .ok (.bool b, rest) := by
  cases b with
  | true =>
    rw [Value.text]
    change value depth (Bytes.ascii 't' :: (Bytes.ofChars "rue".toList ++ rest)) = _
    rw [value, skipBlanks_cons (by decide), ← Bytes.ofText_eq]
    exact word_self (.bool true) (Bytes.ofText "rue") rest
  | false =>
    rw [Value.text]
    change value depth (Bytes.ascii 'f' :: (Bytes.ofChars "alse".toList ++ rest)) = _
    rw [value, skipBlanks_cons (by decide), ← Bytes.ofText_eq]
    exact word_self (.bool false) (Bytes.ofText "alse") rest

private theorem value_quote (depth : Nat) (s : String) (rest : Bytes) :
    value depth (Bytes.ofChars (quote s) ++ rest) = .ok (.string s, rest) := by
  rw [quote, Bytes.ofChars_cons_ascii (by decide), List.cons_append, value, skipBlanks_cons (by decide)]
  change (string _).map _ = _
  rw [string_quote]
  rfl

private theorem value_array (depth : Nat) (rest : Bytes) :
    value (depth + 1) (Bytes.ascii '[' :: rest) =
      (array (value depth) rest).map fun (xs, rest) => (.array xs, rest) := by
  rw [value, skipBlanks_cons (by decide)]
  rfl

private theorem value_object (depth : Nat) (rest : Bytes) :
    value (depth + 1) (Bytes.ascii '\x7b' :: rest) =
      (object (value depth) rest).map fun (ms, rest) => (.object ms, rest) := by
  rw [value, skipBlanks_cons (by decide)]
  rfl

private theorem value_minus (depth : Nat) (rest : Bytes) :
    value depth (Bytes.ascii '-' :: rest) = (number true rest).map fun (n, rest) => (.number n, rest) := by
  rw [value, skipBlanks_cons (by decide)]
  rfl

private theorem exists_digit (hb : isDigit b = true) : ∃ n < 10, b = UInt8.ofNat (0x30 + n) := by
  simp only [isDigit, Bool.and_eq_true, decide_eq_true_eq] at hb
  obtain ⟨hlow, hhigh⟩ : 0x30 ≤ b.toNat ∧ b.toNat ≤ 0x39 := hb
  exact ⟨b.toNat - 0x30, by omega, by rw [Nat.add_sub_cancel' hlow, UInt8.ofNat_toNat]⟩

private theorem isBlank_digit (hb : isDigit b = true) : isBlank b = false := by
  obtain ⟨n, hn, rfl⟩ := exists_digit hb
  have hall : ∀ n < 10, isBlank (UInt8.ofNat (0x30 + n)) = false := by decide
  exact hall n hn

private theorem ne_of_digit (hb : isDigit b = true) {b' : UInt8} (hb' : isDigit b' = false) : b ≠ b' := by
  rintro rfl
  exact Bool.false_ne_true (hb'.symm.trans hb)

private theorem value_digit (depth : Nat) (hb : isDigit b = true) (rest : Bytes) :
    value depth (b :: rest) = (number false (b :: rest)).map fun (n, rest) => (.number n, rest) := by
  obtain ⟨n, hn, rfl⟩ := exists_digit hb
  have hdigit : ∀ n < 10, (Char.ofNat (UInt8.ofNat (0x30 + n)).toNat).isDigit = true := by decide
  rw [value, skipBlanks_cons (isBlank_digit hb)]
  dsimp only
  split
  case h_10 => rw [if_pos hb]
  all_goals exact absurd (‹Char.ofNat _ = _› ▸ hdigit n hn) (by decide)

/-- A whole number that can be read is read from its digits. -/
private theorem value_integer {n : Int} (hn : (Number.integer n).IsReadable) (hrest : EndsNumber rest) :
    value depth (Bytes.ofChars (Number.integer n).text ++ rest) = .ok (.number (.integer n), rest) := by
  obtain ⟨hlow, hhigh⟩ := hn
  by_cases hneg : n < 0
  · have hwhole : whole true n.natAbs = .integer n := by
      rw [whole, if_neg (by simp), if_neg (by simp; omega)]
      exact congrArg Number.integer (by omega)
    rw [Number.text, if_pos hneg, List.singleton_append, Bytes.ofChars_cons_ascii (by decide), List.cons_append,
      value_minus, number_toDigits true (by rw [gatherLimit]; omega) hrest, hwhole]
    rfl
  · have hwhole : whole false n.natAbs = .integer n := by
      rw [whole, if_pos (by simp)]
      exact congrArg Number.integer (by omega)
    obtain ⟨b, more, heq, hb⟩ := ofChars_toDigits n.natAbs
    rw [Number.text, if_neg hneg, List.nil_append, heq, List.cons_append, value_digit depth hb, ← List.cons_append,
      ← heq, number_toDigits false (by rw [gatherLimit]; omega) hrest, hwhole]
    rfl

/-- What is printed of a value begins neither with a blank nor with the end of an array. -/
private def Begins (bytes : Bytes) : Prop :=
  ∃ b more, bytes = b :: more ∧ isBlank b = false ∧ b ≠ Bytes.ascii ']'

private theorem begins_cons {c : Char} (hascii : c.toNat < 0x80) (hblank : isBlank (Bytes.ascii c) = false)
    (hne : Bytes.ascii c ≠ Bytes.ascii ']') (chars : List Char) : Begins (Bytes.ofChars (c :: chars)) :=
  ⟨Bytes.ascii c, Bytes.ofChars chars, Bytes.ofChars_cons_ascii hascii chars, hblank, hne⟩

private theorem begins_text (hwhole : v.IsWhole) (level : Nat) : Begins (Bytes.ofChars (v.text level)) := by
  cases hwhole with
  | null => exact begins_cons (by decide) (by decide) (by decide) _
  | bool b => cases b <;> exact begins_cons (by decide) (by decide) (by decide) _
  | number n =>
    rw [Value.text, Number.text]
    split
    · exact begins_cons (by decide) (by decide) (by decide) _
    · obtain ⟨b, more, heq, hb⟩ := ofChars_toDigits n.natAbs
      exact ⟨b, more, heq, isBlank_digit hb, ne_of_digit hb (by decide)⟩
  | string s => exact begins_cons (by decide) (by decide) (by decide) _
  | @array items _ => cases items <;> exact begins_cons (by decide) (by decide) (by decide) _
  | @object members _ => cases members <;> exact begins_cons (by decide) (by decide) (by decide) _

/-- Printed at a level, the value is read back within `depth` further arrays and objects. -/
private def Reads (depth level : Nat) (v : Value) : Prop :=
  ∀ rest, EndsNumber rest → value depth (Bytes.ofChars (v.text level) ++ rest) = .ok (v, rest)

private theorem endsNumber_newLine (level : Nat) (rest : Bytes) :
    EndsNumber (Bytes.ofChars (newLine level) ++ rest) := by
  rw [newLine, Bytes.ofChars_cons_ascii (by decide), List.cons_append]
  rintro b ⟨⟩
  decide

private theorem endsNumber_comma (rest : Bytes) : EndsNumber (Bytes.ascii ',' :: rest) := by
  rintro b ⟨⟩
  decide

/-- The bytes of further items. -/
private theorem ofChars_itemsText (level : Nat) (v : Value) (xs : List Value) :
    Bytes.ofChars (itemsText level (v :: xs)) = Bytes.ascii ',' :: (Bytes.ofChars (newLine level) ++
      (Bytes.ofChars (v.text level) ++ Bytes.ofChars (itemsText level xs))) := by
  rw [itemsText, List.cons_append, List.cons_append, Bytes.ofChars_cons_ascii (by decide), Bytes.ofChars_append,
    Bytes.ofChars_append, List.append_assoc]

private theorem endsNumber_items (level outer : Nat) (xs : List Value) (rest : Bytes) :
    EndsNumber (Bytes.ofChars (itemsText level xs) ++ (Bytes.ofChars (newLine outer) ++ rest)) := by
  cases xs with
  | nil => exact endsNumber_newLine outer rest
  | cons v xs =>
    rw [ofChars_itemsText]
    exact endsNumber_comma _

private theorem length_itemsText (level : Nat) (xs : List Value) :
    xs.length ≤ (Bytes.ofChars (itemsText level xs)).length := by
  induction xs with
  | nil => exact Nat.zero_le _
  | cons v xs ih =>
    rw [ofChars_itemsText, List.length_cons, List.length_cons, List.length_append, List.length_append]
    omega

/-- A value on a line of its own is found behind the blanks, and read. -/
private theorem value_on_line (hwhole : v.IsWhole) (hread : Reads depth level v) (hrest : EndsNumber rest) :
    ∃ b more, skipBlanks (Bytes.ofChars (newLine level) ++ (Bytes.ofChars (v.text level) ++ rest)) = b :: more ∧
      b ≠ Bytes.ascii ']' ∧ value depth (b :: more) = .ok (v, rest) := by
  obtain ⟨b, more, heq, hblank, hne⟩ := begins_text hwhole level
  have hv := hread rest hrest
  rw [heq, List.cons_append] at hv
  refine ⟨b, more ++ rest, ?_, hne, hv⟩
  rw [skipBlanks_newLine, heq, List.cons_append, skipBlanks_cons hblank]

private theorem items_text (hwhole : ∀ v ∈ xs, v.IsWhole) (hread : ∀ v ∈ xs, Reads depth level v)
    (outer fuel : Nat) (hfuel : xs.length < fuel) (rest : Bytes) :
    items (value depth) fuel (Bytes.ofChars (itemsText level xs) ++ (Bytes.ofChars (newLine outer) ++
      Bytes.ascii ']' :: rest)) = .ok (xs, rest) := by
  -- Any rounds that outnumber the items do; the parser allows as many as bytes are left.
  induction xs generalizing fuel with
  | nil =>
    obtain ⟨fuel, rfl⟩ := Nat.exists_eq_add_of_lt hfuel
    rw [itemsText, Bytes.ofChars_nil, List.nil_append, items, skipBlanks_newLine, skipBlanks_cons (by decide)]
    rfl
  | cons v xs ih =>
    obtain ⟨hv, hxs⟩ := List.forall_mem_cons.mp hwhole
    obtain ⟨hreadv, hreadxs⟩ := List.forall_mem_cons.mp hread
    obtain ⟨fuel, rfl⟩ := Nat.exists_eq_add_of_lt hfuel
    have hmore := ih hxs hreadxs _ (Nat.lt_of_lt_of_le (Nat.lt_succ_self _) (Nat.le_add_right _ fuel))
    have hends := endsNumber_items level outer xs (Bytes.ascii ']' :: rest)
    obtain ⟨b, more, hskip, hne, hvalue⟩ := value_on_line hv hreadv hends
    rw [ofChars_itemsText, List.cons_append, List.append_assoc, List.append_assoc, items, skipBlanks_cons (by decide)]
    dsimp only
    rw [if_neg (by decide), if_pos (by decide), hskip]
    dsimp only
    rw [if_neg (by simpa using hne), hvalue]
    dsimp only [bind, Except.bind]
    rw [List.length_cons, hmore]
    rfl

private theorem array_text (hwhole : ∀ v ∈ xs, v.IsWhole) (hread : ∀ v ∈ xs, Reads depth (level + 1) v) :
    Reads (depth + 1) level (.array xs) := by
  intro rest _
  cases xs with
  | nil =>
    rw [Value.text]
    exact value_array depth (Bytes.ascii ']' :: rest)
  | cons v xs =>
    obtain ⟨hv, hxs⟩ := List.forall_mem_cons.mp hwhole
    obtain ⟨hreadv, hreadxs⟩ := List.forall_mem_cons.mp hread
    have hfuel : xs.length < (Bytes.ofChars (itemsText (level + 1) xs) ++ (Bytes.ofChars (newLine level) ++
        Bytes.ascii ']' :: rest)).length + 1 := by
      have hitems := length_itemsText (level + 1) xs
      rw [List.length_append]
      omega
    have hmore := items_text hxs hreadxs level _ hfuel rest
    have hends := endsNumber_items (level + 1) level xs (Bytes.ascii ']' :: rest)
    obtain ⟨b, more, hskip, hne, hvalue⟩ := value_on_line hv hreadv hends
    have hbytes : Bytes.ofChars ((Value.array (v :: xs)).text level) ++ rest =
        Bytes.ascii '[' :: (Bytes.ofChars (newLine (level + 1)) ++ (Bytes.ofChars (v.text (level + 1)) ++
          (Bytes.ofChars (itemsText (level + 1) xs) ++ (Bytes.ofChars (newLine level) ++
            Bytes.ascii ']' :: rest)))) := by
      simp only [Value.text, List.cons_append, List.append_assoc]
      rw [Bytes.ofChars_cons_ascii (by decide)]
      simp only [List.cons_append, List.append_assoc, Bytes.ofChars_append]
      rfl
    rw [hbytes, value_array, array, hskip]
    dsimp only
    rw [if_neg (by simpa using hne), hvalue]
    dsimp only [bind, Except.bind]
    rw [hmore]
    rfl

/-- The bytes of a member after the opening quote. -/
private def memberBytes (level : Nat) (m : String × Value) : Bytes :=
  Bytes.ofChars (m.1.toList.flatMap escapeChar ++ ['"']) ++ Bytes.ascii ':' :: Bytes.ascii ' ' ::
    Bytes.ofChars (m.2.text level)

private theorem ofChars_memberText (level : Nat) (m : String × Value) :
    Bytes.ofChars (memberText level m) = Bytes.ascii '"' :: memberBytes level m := by
  rw [memberText, quote, List.cons_append, Bytes.ofChars_cons_ascii (by decide), Bytes.ofChars_append,
    Bytes.ofChars_cons_ascii (by decide), Bytes.ofChars_cons_ascii (by decide)]
  rfl

private theorem ofChars_membersText (level : Nat) (m : String × Value) (more : Members) :
    Bytes.ofChars (membersText level (m :: more)) = Bytes.ascii ',' :: (Bytes.ofChars (newLine level) ++
      Bytes.ascii '"' :: (memberBytes level m ++ Bytes.ofChars (membersText level more))) := by
  rw [membersText, List.cons_append, List.cons_append, Bytes.ofChars_cons_ascii (by decide), Bytes.ofChars_append,
    Bytes.ofChars_append, ofChars_memberText, List.append_assoc, List.cons_append]

private theorem endsNumber_members (level outer : Nat) (more : Members) (rest : Bytes) :
    EndsNumber (Bytes.ofChars (membersText level more) ++ (Bytes.ofChars (newLine outer) ++ rest)) := by
  cases more with
  | nil => exact endsNumber_newLine outer rest
  | cons m more =>
    rw [ofChars_membersText]
    exact endsNumber_comma _

private theorem length_membersText (level : Nat) (more : Members) :
    more.length ≤ (Bytes.ofChars (membersText level more)).length := by
  induction more with
  | nil => exact Nat.zero_le _
  | cons m more ih =>
    rw [ofChars_membersText, List.length_cons, List.length_cons, List.length_append, List.length_cons,
      List.length_append]
    omega

private theorem value_blank (depth : Nat) (rest : Bytes) :
    value depth (Bytes.ascii ' ' :: rest) = value depth rest := by
  have hskip : skipBlanks (Bytes.ascii ' ' :: rest) = skipBlanks rest := by
    rw [skipBlanks, List.dropWhile_cons_of_pos (by decide), skipBlanks]
  rw [value, hskip, value]

private theorem member_text {m : String × Value} (hread : Reads depth level m.2) (hrest : EndsNumber rest) :
    member (value depth) (memberBytes level m ++ rest) = .ok (m, rest) := by
  rw [memberBytes, List.append_assoc, List.cons_append, List.cons_append, member, string_quote]
  dsimp only [bind, Except.bind]
  rw [skipBlanks_cons (by decide)]
  dsimp only
  rw [if_pos (by decide), value_blank, hread rest hrest]
  rfl

private theorem members_text (known : Members) (hread : ∀ m ∈ more, Reads depth level m.2)
    (hdistinct : (Members.keys (known ++ more)).Nodup) (outer fuel : Nat) (hfuel : more.length < fuel) (rest : Bytes) :
    members (value depth) known fuel (Bytes.ofChars (membersText level more) ++ (Bytes.ofChars (newLine outer) ++
      Bytes.ascii '\x7d' :: rest)) = .ok (known ++ more, rest) := by
  induction more generalizing known fuel with
  | nil =>
    obtain ⟨fuel, rfl⟩ := Nat.exists_eq_add_of_lt hfuel
    rw [membersText, Bytes.ofChars_nil, List.nil_append, members, skipBlanks_newLine, skipBlanks_cons (by decide),
      List.append_nil]
    rfl
  | cons m more ih =>
    obtain ⟨hreadm, hreadmore⟩ := List.forall_mem_cons.mp hread
    obtain ⟨fuel, rfl⟩ := Nat.exists_eq_add_of_lt hfuel
    -- No key has been read twice, so the member comes last.
    have hset : known.set m.1 m.2 = known ++ [m] := by
      refine Members.set_of_not_mem fun hmem => ?_
      rw [Members.keys, List.map_append, List.nodup_append] at hdistinct
      exact hdistinct.2.2 m.1 hmem m.1 List.mem_cons_self rfl
    rw [List.append_cons known m more] at hdistinct ⊢
    have hmore := ih (known ++ [m]) hreadmore hdistinct _
      (Nat.lt_of_lt_of_le (Nat.lt_succ_self _) (Nat.le_add_right _ fuel))
    have hends := endsNumber_members level outer more (Bytes.ascii '\x7d' :: rest)
    rw [ofChars_membersText, List.cons_append, List.append_assoc, List.cons_append, List.append_assoc, members,
      skipBlanks_cons (by decide)]
    dsimp only
    rw [if_neg (by decide), if_pos (by decide), skipBlanks_newLine, skipBlanks_cons (by decide)]
    dsimp only
    rw [if_pos (by decide), member_text hreadm hends]
    dsimp only [bind, Except.bind]
    rw [hset, List.length_cons, hmore]

private theorem object_text (hread : ∀ m ∈ more, Reads depth (level + 1) m.2) (hdistinct : more.keys.Nodup) :
    Reads (depth + 1) level (.object more) := by
  intro rest _
  cases more with
  | nil =>
    rw [Value.text]
    exact value_object depth (Bytes.ascii '\x7d' :: rest)
  | cons m more =>
    obtain ⟨hreadm, hreadmore⟩ := List.forall_mem_cons.mp hread
    have hfuel : more.length < (Bytes.ofChars (membersText (level + 1) more) ++ (Bytes.ofChars (newLine level) ++
        Bytes.ascii '\x7d' :: rest)).length + 1 := by
      have hmembers := length_membersText (level + 1) more
      rw [List.length_append]
      omega
    have hmore := members_text [m] hreadmore hdistinct level _ hfuel rest
    have hends := endsNumber_members (level + 1) level more (Bytes.ascii '\x7d' :: rest)
    have hbytes : Bytes.ofChars ((Value.object (m :: more)).text level) ++ rest =
        Bytes.ascii '\x7b' :: (Bytes.ofChars (newLine (level + 1)) ++ Bytes.ascii '"' :: (memberBytes (level + 1) m ++
          (Bytes.ofChars (membersText (level + 1) more) ++ (Bytes.ofChars (newLine level) ++
            Bytes.ascii '\x7d' :: rest)))) := by
      simp only [Value.text, List.cons_append, List.append_assoc]
      rw [Bytes.ofChars_cons_ascii (by decide)]
      simp only [List.cons_append, List.append_assoc, Bytes.ofChars_append, ofChars_memberText]
      rfl
    rw [hbytes, value_object, object, skipBlanks_newLine, skipBlanks_cons (by decide)]
    dsimp only
    rw [if_neg (by decide), if_pos (by decide), member_text hreadm hends]
    dsimp only [bind, Except.bind]
    rw [hmore]
    rfl

/-- What is printed of a well-formed value whose numbers are whole is read back as the value. -/
private theorem reads_text (hformed : v.Formed depth) (hwhole : v.IsWhole) (level : Nat) : Reads depth level v := by
  induction hformed generalizing level with
  | null =>
    intro rest _
    rw [Value.text]
    exact value_null _ rest
  | bool b => exact fun rest _ => value_bool _ level b rest
  | number readable =>
    obtain ⟨n⟩ | _ := hwhole
    intro rest hrest
    rw [Value.text]
    exact value_integer readable hrest
  | string s =>
    intro rest _
    rw [Value.text]
    exact value_quote _ s rest
  | array _ ih =>
    cases hwhole with
    | array whole => exact array_text whole fun v hmem => ih v hmem (whole v hmem) (level + 1)
  | object distinct _ ih =>
    cases hwhole with
    | object whole => exact object_text (fun m hmem => ih m hmem (whole m hmem) (level + 1)) distinct

/-- A printed document is read back as the value it was printed of. -/
theorem parse_print (hformed : v.Formed nestingLimit) (hwhole : v.IsWhole) :
    parse (Bytes.ofText (print v ++ "\n")) = .ok v := by
  have hread := reads_text hformed hwhole 0 [Bytes.lineFeed] (by rintro b ⟨⟩; decide)
  have hbytes : Bytes.ofText (print v ++ "\n") = Bytes.ofChars (v.text 0) ++ [Bytes.lineFeed] := by
    rw [Bytes.ofText_append, print, Bytes.ofText_ofList, Bytes.ofText_eq "\n"]
    rfl
  rw [hbytes, parse, document, hread]
  rfl

end DebRelease.Json
