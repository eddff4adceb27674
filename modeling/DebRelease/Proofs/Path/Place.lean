import DebRelease.Path.Absolute
import DebRelease.Proofs.Path.Segments

namespace DebRelease.Path

variable {p q : Path} {name : Bytes} {location : Location}

/-- The place that an absolute path without `..` spells. -/
def place (p : Path) : Location :=
  p.names.filter (· != dot)

/-- An absolute path without `..`. -/
structure IsDirect (p : Path) : Prop where
  absolute : p.isAbsolute = true
  noDotDot : dotDot ∉ p.names

/-- The path of a place. -/
abbrev ofLocation (location : Location) : Path :=
  ofSegments true location

theorem isName_iff :
    isName name = true ↔ name ≠ [] ∧ name ≠ dot ∧ name ≠ dotDot ∧ slash ∉ name := by
  simp [isName, and_assoc]

theorem not_mem_dotDot_of_isName (h : ∀ name ∈ location, isName name = true) : dotDot ∉ location :=
  fun hmem => (isName_iff.mp (h _ hmem)).2.2.1 rfl

namespace IsDirect

/-- A relative path without `..` read from a direct one is direct. -/
theorem join (hp : p.IsDirect) (hq : q.isAbsolute = false) (hup : dotDot ∉ q.names) :
    (p.join q).IsDirect ∧ (p.join q).place = p.place ++ q.place := by
  obtain ⟨habsolute, hnames⟩ := names_join p hq
  refine ⟨⟨habsolute.trans hp.absolute, ?_⟩, ?_⟩
  · rw [hnames]
    simpa using ⟨hp.noDotDot, hup⟩
  · rw [place, hnames, List.filter_append]
    rfl

end IsDirect

theorem names_of_isName (h : isName name = true) :
    (⟨name⟩ : Path).isAbsolute = false ∧ (⟨name⟩ : Path).names = [name] := by
  obtain ⟨hne, -, -, hslash⟩ := isName_iff.mp h
  have habsolute : (⟨name⟩ : Path).isAbsolute = false := by
    rw [← Bool.not_eq_true, isAbsolute_iff]
    rintro ⟨rest, hrest⟩
    exact hslash (by simp [show name = slash :: rest from hrest])
  refine ⟨habsolute, ?_⟩
  rw [names, segments, habsolute]
  simp [Bytes.splitOn_of_not_mem hslash, hne]

theorem endsInSlash_join_name (p : Path) (h : isName name = true) : (p.join ⟨name⟩).endsInSlash = false := by
  obtain ⟨hne, -, -, hslash⟩ := isName_iff.mp h
  have hrelative := (names_of_isName h).1
  obtain ⟨front, last, rfl⟩ := (List.eq_nil_or_concat name).resolve_left hne
  rw [List.concat_eq_append] at hslash hrelative ⊢
  have hlast : last ≠ slash := by
    rintro rfl
    simp at hslash
  rw [join, hrelative, if_neg (by simp)]
  split
  · rw [endsInSlash, ← List.append_assoc, List.getLast?_concat]
    simpa using hlast
  · rw [endsInSlash, ← List.cons_append, ← List.append_assoc, List.getLast?_concat]
    simpa using hlast

theorem endsInSlash_join_empty (p : Path) (hne : p.bytes ≠ []) : (p.join empty).endsInSlash = true := by
  rw [join, if_neg (by decide)]
  split
  · rename_i hends
    simpa [hne, endsInSlash, empty] using hends
  · simp [endsInSlash, empty]

namespace IsDirect

/-- An entry of a direct directory has a direct path. -/
theorem join_name (hp : p.IsDirect) (h : isName name = true) :
    (p.join ⟨name⟩).IsDirect ∧ (p.join ⟨name⟩).place = p.place ++ [name] := by
  obtain ⟨habsolute, hnames⟩ := names_of_isName h
  obtain ⟨-, hdot, hdotDot, -⟩ := isName_iff.mp h
  obtain ⟨hdirect, hplace⟩ := hp.join habsolute (by simpa [hnames] using hdotDot.symm)
  have hname : (⟨name⟩ : Path).place = [name] := by
    rw [place, hnames]
    simp [hdot]
  exact ⟨hdirect, by rw [hplace, hname]⟩

/-- Any path without `..` read from a direct one is direct. -/
theorem join_isDirect (hp : p.IsDirect) (hup : dotDot ∉ q.names) : (p.join q).IsDirect := by
  cases habsolute : q.isAbsolute with
  | true =>
    rw [Path.join, if_pos habsolute]
    exact ⟨habsolute, hup⟩
  | false => exact (hp.join habsolute hup).1

/-- A slash at the end changes nothing about the place. -/
theorem join_empty (hp : p.IsDirect) :
    (p.join empty).IsDirect ∧ (p.join empty).place = p.place := by
  have hempty : empty.isAbsolute = false ∧ empty.names = [] := ⟨rfl, rfl⟩
  obtain ⟨hdirect, hplace⟩ := hp.join hempty.1 (by simp [hempty.2])
  exact ⟨hdirect, by rw [hplace, place, place, hempty.2]; simp⟩

theorem endsInSlash_join_empty (hp : p.IsDirect) : (p.join empty).endsInSlash = true := by
  obtain ⟨rest, hrest⟩ := isAbsolute_iff.mp hp.absolute
  exact p.endsInSlash_join_empty (by simp [hrest])

end IsDirect

private theorem filter_dropWhile (segments : List Bytes) :
    (segments.dropWhile isTrivial).filter (! isTrivial ·) = segments.filter (! isTrivial ·) := by
  induction segments with
  | nil => rfl
  | cons first rest ih =>
    rw [List.dropWhile_cons]
    split
    · rename_i htrivial
      rw [ih, List.filter_cons_of_neg (by simp [htrivial])]
    · rfl

theorem filter_dropTrailing (segments : List Bytes) :
    (dropTrailing isTrivial segments).filter (! isTrivial ·) = segments.filter (! isTrivial ·) := by
  rw [dropTrailing, List.filter_reverse, filter_dropWhile, List.filter_reverse, List.reverse_reverse]

theorem dropTrailing_concat {segments front : List Bytes} {last : Bytes}
    (h : dropTrailing isTrivial segments = front ++ [last]) : isTrivial last = false := by
  have hreverse : segments.reverse.dropWhile isTrivial = last :: front.reverse := by
    have := congrArg List.reverse h
    simpa [dropTrailing] using this
  have hhead := List.head?_dropWhile_not isTrivial segments.reverse
  rw [hreverse] at hhead
  simpa using hhead

theorem mem_dropTrailing {segments : List Bytes} {segment : Bytes}
    (h : segment ∈ dropTrailing isTrivial segments) : segment ∈ segments := by
  rw [dropTrailing, List.mem_reverse] at h
  exact List.mem_reverse.mp ((List.dropWhile_sublist _).subset h)

theorem place_eq_filter_segments (p : Path) : p.place = p.segments.filter (! isTrivial ·) := by
  rw [place, names, List.filter_filter]
  congr 1
  funext segment
  cases h : segment == dot <;> simp [isTrivial, h, bne]

theorem significant_of_isAbsolute (h : p.isAbsolute = true) :
    p.significant = dropTrailing isTrivial p.segments := by
  simp [significant, h]

theorem parent?_of_significant {front : List Bytes} {last : Bytes} (h : p.significant = front ++ [last]) :
    p.parent? =
      some (ofSegments p.isAbsolute (ofSegments p.isAbsolute front).significant) := by
  cases front with
  | nil => simp [parent?, h]
  | cons first rest =>
    have hlast : (first :: (rest ++ [last])).dropLast = first :: rest :=
      @List.dropLast_concat Bytes (first :: rest) last
    simp only [parent?, h, List.cons_append, hlast]

theorem place_ofSegments {segments : List Bytes} (h : ∀ segment ∈ segments, slash ∉ segment) :
    (ofSegments true segments).place = segments.filter (! isTrivial ·) := by
  rw [place_eq_filter_segments, segments_ofSegments h]
  split
  · rename_i hnil
    simp [hnil, isTrivial]
  · rfl

/-- The parent of a direct path is direct and one place up. -/
theorem IsDirect.parent (hp : p.IsDirect) (h : p.parent? = some q) :
    q.IsDirect ∧ q.place = p.place.dropLast := by
  have hsignificant := significant_of_isAbsolute hp.absolute
  rcases List.eq_nil_or_concat (dropTrailing isTrivial p.segments) with hnil | ⟨front, last, hconcat⟩
  · simp [parent?, hsignificant, hnil] at h
  rw [List.concat_eq_append] at hconcat
  have hmem : ∀ segment ∈ front, segment ∈ p.segments := fun segment hsegment =>
    mem_dropTrailing (by simp [hconcat, hsegment])
  have hfront : ∀ segment ∈ front, slash ∉ segment := fun segment hsegment =>
    slash_not_mem_segment (hmem segment hsegment)
  let rest := dropTrailing isTrivial (ofSegments true front).segments
  have hq : q = ofSegments true rest := by
    rw [parent?_of_significant (hsignificant.trans hconcat), hp.absolute,
      significant_of_isAbsolute (isAbsolute_ofSegments front)] at h
    exact (Option.some.inj h).symm
  have hinner : ∀ segment ∈ rest, segment ∈ front ∨ segment = [] := by
    intro segment hsegment
    have hsegment := mem_dropTrailing hsegment
    rw [segments_ofSegments hfront] at hsegment
    split at hsegment
    · exact .inr (by simpa using hsegment)
    · exact .inl hsegment
  have hrest : ∀ segment ∈ rest, slash ∉ segment := by
    intro segment hsegment
    rcases hinner segment hsegment with hin | rfl
    · exact hfront segment hin
    · simp
  refine ⟨⟨hq ▸ isAbsolute_ofSegments rest, ?_⟩, ?_⟩
  · rw [hq, names_ofSegments hrest]
    intro hup
    rcases hinner dotDot (List.mem_of_mem_filter hup) with hin | hnil
    · exact hp.noDotDot (mem_names_iff.mpr ⟨hmem _ hin, by decide⟩)
    · exact absurd hnil (by decide)
  · have hplace : p.place = front.filter (! isTrivial ·) ++ [last] := by
      rw [place_eq_filter_segments, ← filter_dropTrailing, hconcat, List.filter_append]
      simp [dropTrailing_concat hconcat]
    rw [hq, place_ofSegments hrest, filter_dropTrailing, ← place_eq_filter_segments, place_ofSegments hfront,
      hplace, List.dropLast_concat]

end DebRelease.Path
