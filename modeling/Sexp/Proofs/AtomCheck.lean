import Sexp.Proofs.RoundTrip

/-!
# The check of atom texts

The check admits the texts that a reader can find as an atom, and no others. Each of them is read as
an atom when it is a source by itself, and whatever reader and source an atom comes from, its text
passes the check.

* `Expr.readStrict_eq_atom_iff`: the texts that are read as an atom by themselves.
* `Expr.isAtomText_iff_exists_read`: the texts of the atoms that readers return.
* `Expr.checkedAtom_iff_read`: both of them against the check.
-/

namespace Sexp.Expr

/-- A text that is read as the atom with this very text is an atom text, and the other way round. -/
theorem readStrict_eq_atom_iff {text : String} :
    (readStrict text).value = .ok (.atom text) ↔ IsAtomText text := by
  refine ⟨fun h => ?_, fun h => ?_⟩
  · exact wellFormed_atom_iff.1 (Reader.wellFormed_of_read h)
  · have hdepth : (atom text).depth ≤ Reader.defaultMaxDepth := by
      rw [depth_eq_height]
      exact Nat.zero_le _
    have hread := (Reader.read_render_eq_ok_iff (.atom text) Reader.defaultMaxDepth).2
      ⟨wellFormed_atom_iff.2 h, hdepth⟩
    rwa [render_atom] at hread

/-- The atoms that readers return, whatever they are given, are those with atom texts. -/
theorem isAtomText_iff_exists_read {text : String} :
    IsAtomText text ↔ ∃ (r : Reader) (src : String) (e : Expr),
      (r.read src).value = .ok e ∧ text ∈ e.atoms := by
  refine ⟨fun h => ?_, ?_⟩
  · exact ⟨.strict, text, .atom text, readStrict_eq_atom_iff.2 h, by simp⟩
  · rintro ⟨r, src, e, hread, htext⟩
    exact Reader.wellFormed_of_read hread text htext

theorem exists_checkedAtom_iff {text : String} :
    (∃ e, checkedAtom text = .ok e) ↔ IsAtomText text := by
  simp only [checkedAtom_eq_ok_iff]
  exact ⟨fun ⟨_, h, _⟩ => h, fun h => ⟨_, h, rfl⟩⟩

/-- A text passes the check iff it is read as an atom by itself, and iff it is the text of an atom,
at any depth, of what some reader returns for some source. What passes is made the atom with this
text, and a refusal holds the text unchanged. -/
theorem checkedAtom_iff_read (text : String) :
    ((∃ e, checkedAtom text = .ok e) ↔ (readStrict text).value = .ok (.atom text)) ∧
      ((∃ e, checkedAtom text = .ok e) ↔ ∃ (r : Reader) (src : String) (e : Expr),
        (r.read src).value = .ok e ∧ text ∈ e.atoms) ∧
      (∀ e, checkedAtom text = .ok e → e = .atom text) ∧
      (∀ error, checkedAtom text = .error error → error.text = text) := by
  rw [exists_checkedAtom_iff, readStrict_eq_atom_iff, ← isAtomText_iff_exists_read]
  refine ⟨Iff.rfl, Iff.rfl, fun e h => (checkedAtom_eq_ok_iff.1 h).2, fun error h => ?_⟩
  unfold checkedAtom at h
  split at h <;> cases h
  rfl

end Sexp.Expr
