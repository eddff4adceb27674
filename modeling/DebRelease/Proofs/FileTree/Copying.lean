import DebRelease.Proofs.FileTree.MoveDir
import DebRelease.Proofs.FileTree.Rebuild

namespace DebRelease

open FileTree

variable {t : FileTree} {cwd : WorkingDir} {p q : Path} {source dir above place : Location} {name last : Bytes}
    {content : Content}

namespace Path

theorem descend_ofLocation {rest : Location} (h : ∀ name ∈ place ++ rest, isName name = true) :
    (ofLocation place).descend rest = ofLocation (place ++ rest) := by
  induction rest generalizing place with
  | nil => simp
  | cons name rest ih =>
    rw [descend_cons, ofLocation_join (fun other hmem => h other (by simp [hmem])) (h name (by simp)), ih]
    · rw [List.append_assoc, List.singleton_append]
    · rwa [List.append_assoc, List.singleton_append]

end Path

namespace FileTree

open TreeM

/-- Where a content has something, both places can be reached by the paths that spell them. -/
def Reachable (content : Content) (place : Location) : Prop :=
  ∀ rest, content rest ≠ none → (Path.ofLocation (place ++ rest)).Spells (place ++ rest)

theorem Reachable.spells (h : Reachable content place) (hroot : content [] = some .directory) :
    (Path.ofLocation place).Spells place := by
  simpa using h [] (by simp [hroot])

theorem Reachable.spans (h : Reachable content place) : (Path.ofLocation place).Spans content := by
  intro rest hrest
  have hspells := h rest hrest
  rw [Path.descend_ofLocation hspells.isName]
  exact hspells.check

/-- Copying a directory to a free name of a directory succeeds, and all of it arrives. -/
theorem copyDir_arrives (cwd : WorkingDir) (hseparate : Separate source (dir ++ [name])) (hwf : t.WellFormed)
    (hholds : t.Contains source content) (hroot : content [] = some .directory)
    (hdir : t.get? dir = some .directory) (hfree : t.Contains (dir ++ [name]) .none) (hreach : Reachable content source)
    (hreach' : Reachable content (dir ++ [name]))
    (hcheck : checkPath ((Path.ofLocation (dir ++ [name])).join .empty) = .ok ()) :
    Yields (copyDir cwd (.ofLocation source) (.ofLocation (dir ++ [name]))) t fun _ =>
      Arrives content (dir ++ [name]) t := by
  have hne : source ≠ [] := by
    rintro rfl
    exact hseparate.1 List.nil_prefix
  obtain ⟨above, last, rfl⟩ := (List.eq_nil_or_concat source).resolve_left hne
  rw [List.concat_eq_append] at hseparate hholds hreach ⊢
  have hp := hreach.spells hroot
  have hq := hreach'.spells hroot
  have hstands := hp.standsFor cwd hwf (hwf.parent (hholds.get?.trans hroot))
  have hvacant := (hq.standsFor cwd hwf hdir).vacant hq.isTidy hfree.get?
  refine (copyDir_vacant hstands hq.isTidy hvacant hseparate hwf hholds hroot hreach.spans hreach'.spans hcheck).mono ?_
  rintro _ t' ⟨hwf', hcopied, hwithin⟩
  exact ⟨hwf', hcopied, fun location => hwithin.get?_eq_of_parent hwf hdir⟩

/-- Moving a directory to a name of another succeeds: all of it arrives, and nothing is left behind. -/
theorem moveDir_arrives (cwd : WorkingDir) (hp : p.Spells (above ++ [last])) (hq : q.Spells (dir ++ [name]))
    (hseparate : Separate (above ++ [last]) (dir ++ [name])) (hwf : t.WellFormed)
    (hholds : t.Contains (above ++ [last]) content) (hroot : content [] = some .directory)
    (hdir : t.get? dir = some .directory) (hopen : t.IsOpen (dir ++ [name])) :
    Yields (moveDir cwd p q) t fun _ t' => t'.WellFormed ∧ t'.Contains (dir ++ [name]) content ∧
      t'.Contains (above ++ [last]) .none ∧
      ∀ location, ¬ above ++ [last] <+: location → ¬ dir ++ [name] <+: location →
        t'.get? location = t.get? location := by
  have hget : t.get? (above ++ [last]) = some .directory := hholds.get?.trans hroot
  have hout : ¬ dir ++ [name] <+: above := fun hpre => hseparate.2 (hpre.trans (List.prefix_append _ _))
  have hwf' := hwf.outside [dir ++ [name]]
  have hkept {location : Location} (hout : ¬ dir ++ [name] <+: location) :
      (t.outside [dir ++ [name]]).get? location = t.get? location := get?_outside_of_out t (by simpa using hout)
  have hstands := hp.standsFor cwd hwf' ((hkept hout).trans (hwf.parent hget))
  have hstands' := hq.standsFor cwd hwf' ((hkept (entry_not_above dir name)).trans hdir)
  have hready : Cleared cwd p q above last dir name t (t.outside [dir ++ [name]]) :=
    ⟨hwf', OnlyMakes.refl _ _, hstands, hstands'⟩
  have hmove := moveDir_of_rename (requireDir_standsFor (hp.standsFor cwd hwf (hwf.parent hget)) hget)
    (removeAll_open cwd hq (by simp) hwf hopen) (hstands'.makeParent hq.isTidy) (hready.rename hseparate hholds hroot)
  obtain ⟨hgone, hmoved, hrest⟩ := hready.moved hseparate hholds
  refine ⟨(), _, hmove, ?_, hmoved, hgone, fun location hout hout' => (hrest location hout hout').trans (hkept hout')⟩
  exact hwf'.move (by simp) hstands'.directory hstands'.isEntryName hready.free hseparate.1

end FileTree

end DebRelease
