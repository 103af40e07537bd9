set_option autoImplicit false

/-! # Parts of a world

Functions that need only a part of a world are lifted to the whole world by saying how the part is
looked at and how it is replaced. -/

namespace Workbench

/-- A part of a world. -/
structure Part (World α : Type) where
  get : World → α
  set : World → α → World

/-- Do something to a part of a world. -/
def Part.run {World α β : Type} (p : Part World α) (act : α → β × α) (w : World) : β × World :=
  let (result, part) := act (p.get w)
  (result, p.set w part)

/-- The world as a part of itself. -/
def Part.whole {World : Type} : Part World World := ⟨id, fun _ w => w⟩

end Workbench
