import Workbench.Proofs.Descriptors

set_option autoImplicit false

/-! # The buffers of the standard streams

Writing to descriptors 1 and 2 adds to the two buffers, taking and dropping their contents empties
them, and no other operation touches them. So what has come into a buffer while operations were
carried out, none of which emptied it, is what they wrote to the descriptor, in order. -/

namespace Workbench.FileSystem

variable {World α : Type} {fs fs' : FileSystem}

namespace Operation

/-- What an operation writes to a descriptor. -/
def written (number : Nat) : Operation → ByteArray
  | .write n data _ => if n = number then data else .empty
  | _ => .empty

/-- Whether an operation leaves what is in the buffers there. -/
def keepsOutput : Operation → Bool
  | .takeStdout | .takeStderr | .clearOutput => false
  | _ => true

/-- What operations write to a descriptor, one after the other. -/
def writtenBy (number : Nat) : List Operation → ByteArray
  | [] => .empty
  | op :: ops => op.written number ++ writtenBy number ops

end Operation

/-- Operations lead from one file system to another. The clock may be set between them, and each may
    find something else mounted. -/
inductive Acts : FileSystem → List Operation → FileSystem → Prop where
  | done {fs : FileSystem} : Acts fs [] fs
  | tick {fs fs' : FileSystem} {ops : List Operation} (clock : Time) :
      Acts { fs with clock := clock } ops fs' → Acts fs ops fs'
  | step {fs fs' : FileSystem} {ops : List Operation} {World : Type}
      (mount : Option (Asset.Mount World)) (world : World) (op : Operation) :
      Acts (fs.perform mount world op).2.1 ops fs' → Acts fs (op :: ops) fs'

/-- So much was added to the two buffers. -/
structure Adds (fs fs' : FileSystem) (out err : ByteArray) : Prop where
  stdout : fs'.stdout = fs.stdout ++ out
  stderr : fs'.stderr = fs.stderr ++ err

namespace Adds

theorem nothing (hout : fs'.stdout = fs.stdout) (herr : fs'.stderr = fs.stderr) :
    Adds fs fs' .empty .empty :=
  ⟨by rw [hout, ByteArray.append_empty], by rw [herr, ByteArray.append_empty]⟩

theorem refl (fs : FileSystem) : Adds fs fs .empty .empty := nothing rfl rfl

theorem of_onlyNodes (h : OnlyNodes fs fs') : Adds fs fs' .empty .empty := nothing h.stdout h.stderr

theorem trans {fs₁ : FileSystem} {out err out' err' : ByteArray} (h : Adds fs fs₁ out err)
    (h' : Adds fs₁ fs' out' err') : Adds fs fs' (out ++ out') (err ++ err') where
  stdout := by rw [h'.stdout, h.stdout, ByteArray.append_assoc]
  stderr := by rw [h'.stderr, h.stderr, ByteArray.append_assoc]

/-- What is done before or after may leave the buffers alone. -/
theorem after {fs₁ : FileSystem} (h : Adds fs₁ fs' .empty .empty)
    (hsame : Adds fs fs₁ .empty .empty) : Adds fs fs' .empty .empty := by
  have htrans := hsame.trans h
  rwa [ByteArray.append_empty] at htrans

/-- Nodes may be put in whatever way. -/
theorem tolerant : Tolerant (fun _ _ => True) fun fs fs' => Adds fs fs' .empty .empty where
  refl := refl
  trans h h' := h'.after h
  putDir fs p := of_onlyNodes (OnlyNodes.putDir fs p)
  putFile fs p data _ := of_onlyNodes (OnlyNodes.putFile fs p data)

theorem openPath (mount : Option (Asset.Mount World)) (fs : FileSystem) (world : World)
    (text : String) (mode : OpenMode) :
    Adds fs (fs.openPath mount world text mode).2.1 .empty .empty :=
  tolerant.withFetched (fun _ _ _ _ _ _ _ _ _ => trivial) fun _ _ =>
    tolerant.openLocal (fun _ _ _ => trivial) (fun _ _ _ _ _ _ => nothing rfl rfl)
      fun _ _ => nothing rfl rfl

theorem close {number : Nat} (hok : fs.close number = .ok fs') : Adds fs fs' .empty .empty := by
  rcases close_eq_ok_iff.1 hok with ⟨-, rfl⟩ | ⟨-, -, rfl⟩ <;> exact nothing rfl rfl

theorem chdir {text : String} (hok : fs.chdir text = .ok fs') : Adds fs fs' .empty .empty := by
  obtain ⟨p, -, -, rfl⟩ := chdir_eq_ok_iff.1 hok
  exact nothing rfl rfl

theorem read (fs : FileSystem) (number length : Nat) (position : Option Nat) :
    Adds fs (fs.read number length position).2 .empty .empty := by
  have houtcome := read_outcome fs number length position
  generalize fs.read number length position = outcome at houtcome ⊢
  cases houtcome with
  | stream => exact refl fs
  | refused => exact refl fs
  | missing => exact nothing rfl rfl
  | found => exact nothing rfl rfl

theorem rename (fs : FileSystem) (source target : String) :
    Adds fs (fs.rename source target).2 .empty .empty := by
  rcases rename_left fs source target with hleft | ⟨move, -, hleft⟩
  · rw [hleft]
    exact refl fs
  rw [hleft]
  cases move with
  | none => exact refl fs
  | file s t =>
    rw [FileSystem.carryOut]
    exact (of_onlyNodes (OnlyNodes.relink _ s t)).after (nothing rfl rfl)
  | dir s t =>
    rw [FileSystem.carryOut]
    rcases followDir s t fs.descriptors with ⟨e | _, descriptors⟩
    · exact nothing rfl rfl
    · exact (of_onlyNodes (OnlyNodes.relink _ s t)).after (nothing rfl rfl)

/-- Writing adds what is written to the buffer of a standard stream, and to none otherwise. -/
theorem write (mount : Option (Asset.Mount World)) (fs : FileSystem) (world : World) (number : Nat)
    (data : ByteArray) (position : Option Nat) :
    Adds fs (fs.perform mount world (.write number data position)).2.1
      (Operation.written 1 (.write number data position))
      (Operation.written 2 (.write number data position)) := by
  rw [FileSystem.perform]
  simp only [Operation.written]
  by_cases hout : number = 1
  · subst hout
    exact ⟨rfl, ByteArray.append_empty.symm⟩
  by_cases herr : number = 2
  · subst herr
    exact ⟨ByteArray.append_empty.symm, rfl⟩
  rw [if_neg hout, if_neg herr]
  split
  · next n fs₁ hwrite =>
    cases (written_of_write hwrite).2 with
    | stdout hnumber => exact absurd hnumber hout
    | stderr hnumber => exact absurd hnumber herr
    | file => exact nothing rfl rfl
  · exact refl fs

/-- An operation adds to the buffers what it writes to the two streams, unless it empties one. -/
theorem perform (mount : Option (Asset.Mount World)) (fs : FileSystem) (world : World)
    {op : Operation} (hkeeps : op.keepsOutput = true) :
    Adds fs (fs.perform mount world op).2.1 (op.written 1) (op.written 2) := by
  cases op with
  | write number data position => exact write mount fs world number data position
  | openPath path mode => exact openPath mount fs world path mode
  | stat path => exact of_onlyNodes (OnlyNodes.stat mount fs world path)
  | readAll path => exact of_onlyNodes (OnlyNodes.readAll mount fs world path)
  | close number => exact tolerant.settle fun _ => close
  | read number length position => exact read fs number length position
  | truncateDescriptor number length =>
    exact tolerant.settle fun _ hok => of_onlyNodes (OnlyNodes.truncateDescriptor hok)
  | truncate path length => exact tolerant.settle fun _ hok => of_onlyNodes (OnlyNodes.truncate hok)
  | makeDir path recursive => exact of_onlyNodes (OnlyNodes.makeDir fs path recursive)
  | removeDir path => exact tolerant.settle fun _ hok => of_onlyNodes (OnlyNodes.removeDir hok)
  | unlink path => exact tolerant.settle fun _ hok => of_onlyNodes (OnlyNodes.unlink hok)
  | rename source target => exact rename fs source target
  | setTimes path accessed modified =>
    exact tolerant.settle fun _ hok => of_onlyNodes (OnlyNodes.setTimes hok)
  | writeFile path data => exact of_onlyNodes (OnlyNodes.writeFile fs path data)
  | chdir path => exact tolerant.settle fun _ => chdir
  | statDescriptor | readDir | contains | cwd | resolve => exact refl fs
  | takeStdout | takeStderr | clearOutput => cases hkeeps

end Adds

/-- What operations have added to the buffers is what they wrote to the two streams. -/
theorem Acts.adds {ops : List Operation} (h : Acts fs ops fs')
    (hkeep : ∀ op ∈ ops, op.keepsOutput = true) :
    Adds fs fs' (Operation.writtenBy 1 ops) (Operation.writtenBy 2 ops) := by
  induction h with
  | done => exact .refl _
  | tick clock _ ih => exact ⟨(ih hkeep).stdout, (ih hkeep).stderr⟩
  | step mount world op _ ih =>
    exact (Adds.perform mount _ world (hkeep op List.mem_cons_self)).trans
      (ih fun other hother => hkeep other (List.mem_cons_of_mem op hother))

end Workbench.FileSystem
