import Workbench.Proofs.TreeInvariant

set_option autoImplicit false

/-! # Refused operations

An operation that is refused leaves the nodes, the working directory and the buffers as they were
when it began. What it began on is the file system as it was given, or as it is once one asset was
fetched to the path that the operation names. That nothing is left half done rests on the tree: a
file in the way of a chain of directories is met before the first directory is made, and the
descriptors of a moved directory always find their new paths. -/

namespace Workbench.FileSystem

variable {World : Type} {fs fs' : FileSystem}

/-- A refused operation leaves what it began on. -/
theorem Reachable.refused_unchanged (h : Reachable fs) {mount : Option (Asset.Mount World)}
    {world world' : World} {op : Operation} {e : Error}
    (hrefused : fs.perform mount world op = (.error e, fs', world')) :
    ∃ fs₁, Begun mount fs world op world' fs₁ ∧ Unchanged fs₁ fs' := by
  obtain ⟨v, hv⟩ := h.shows
  obtain ⟨fs₁, hbegun, hsound⟩ := hv.perform mount world op
  rw [hrefused] at hbegun hsound
  exact ⟨fs₁, hbegun, hsound.refused e rfl⟩

/-- An asset is there already for one who wants to create it, and is fetched to find out. -/
theorem refused_unchanged_exclusive :
    ∃ fs₁ fs', perform (some ⟨["/lib/"], fun world _ => (.ok "a".toUTF8, world)⟩) (empty ⟨0, 0⟩) ()
        (.openPath "/lib/a" ⟨true, false, true, true, false, false⟩) =
          (.error (.alreadyExists "/lib/a"), fs', ()) ∧
      Begun (some ⟨["/lib/"], fun world _ => (.ok "a".toUTF8, world)⟩) (empty ⟨0, 0⟩) ()
        (.openPath "/lib/a" ⟨true, false, true, true, false, false⟩) () fs₁ ∧
      Unchanged fs₁ fs' := by
  have hrefused : perform (some ⟨["/lib/"], fun world _ => (.ok "a".toUTF8, world)⟩) (empty ⟨0, 0⟩)
      () (.openPath "/lib/a" ⟨true, false, true, true, false, false⟩) =
        (.error (.alreadyExists "/lib/a"), _, ()) := rfl
  obtain ⟨fs₁, hbegun, hunchanged⟩ := Reachable.refused_unchanged (.new ⟨0, 0⟩) hrefused
  exact ⟨fs₁, _, hrefused, hbegun, hunchanged⟩

end Workbench.FileSystem
