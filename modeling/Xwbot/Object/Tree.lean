import Xwbot.Object.Heap

/-!
# The object tree

The functions of `x_obj.c` that read and change the links between objects.  The
objects have no class callbacks and no listeners here, so the message that
announces a change is made and dropped.
-/

namespace Xwbot

namespace Heap

/-! ## Looking up -/

/-- `__x_object_get_child`: the first son whose name, as far as it goes, begins
`cname`; without a name the first son. -/
def getChild (h : Heap) (xparent : Option Addr) (cname : Option Text) :
    Except Fault (Option Addr) :=
  match xparent with
  | none => .ok none
  | some _ => do
      let p ← h.deref xparent
      match cname with
      | none => .ok (h.sons p)
      | some cname => do
          let (_, xobj) ← h.follow h.sibling (fun x => eqnText (h.name x) cname) (h.sons p)
          .ok xobj

/-- The loop of `x_object_get_index`; the index itself only goes into the text of a
message. -/
def getIndex (h : Heap) (xobj : Addr) : Except Fault Unit :=
  match h.parent xobj with
  | none => .ok ()
  | some p => do
      let p ← h.deref (some p)
      let _ ← h.follow h.sibling (· = xobj) (h.sons p)
      .ok ()

/-- `x_object_getenv`: the attribute of the object, or of the nearest object around it
that has one. -/
def getenv (h : Heap) (x : Option Addr) (anam : Text) : Except Fault (Option Text) := do
  let (_, found) ← h.follow h.parent (fun y => (getattr anam (h.attrs y)).isSome) x
  .ok (found.bind fun y => getattr anam (h.attrs y))

/-! ## Linking -/

/-- `__x_object_insert_into_tree`. -/
def insertIntoTree (h : Heap) (parent xobj : Addr) : Except Fault Heap := do
  let h := h.setParent xobj (some parent)
  let h ← match h.sons parent with
    | none => .ok (h.setSons parent (some xobj))
    | some _ => do
        -- update siblings
        let (xt, _) ← h.follow h.sibling (fun _ => false) (h.sons parent)
        let h := match xt with
          | some xt => h.setSibling xt (some xobj)
          | none => h
        -- update nexts
        let start ← h.getChild (some parent) (some (h.name xobj))
        let (xt, _) ← h.follow h.next (fun _ => false) start
        .ok (match xt with
          | some xt => h.setNext xt (some xobj)
          | none => h)
  let h := (h.setNext xobj none).setSibling xobj none
  .ok (h.setChildCount parent (h.childCount parent + 1))

/-- `x_object_append_child_no_cb`. -/
def appendChildNoCb (h : Heap) (parent child : Addr) : Except Fault Heap := do
  let parent ← h.deref (some parent)
  let child ← h.deref (some child)
  let h ← h.insertIntoTree parent child
  let h := h.setRefcount parent (h.refcount parent + 1)
  let h := h.setRefcount child (h.refcount child + 1)
  .ok (h.setBus child (h.bus parent))

/-! ## Unlinking -/

/-- The part of `__x_object_remove_from_treenode`, and of `x_object_destroy_no_cb`,
that takes an object out of the chain of objects named like it. -/
def unlinkNext (h : Heap) (parent xobj : Addr) : Except Fault Heap := do
  let start ← h.getChild (some parent) (some (h.name xobj))
  let (xt, xp) ← h.follow h.next (· = xobj) start
  let h := match xt, xp with
    | some xt, some xp => h.setNext xt (h.next xp)
    | _, _ => h
  .ok (h.setNext xobj none)

/-- The part of `__x_object_remove_from_treenode` that updates the siblings.  It does
not look at the pointer to the first son. -/
def removeSibling (h : Heap) (parent xobj : Addr) : Except Fault Heap := do
  let (xt, xp) ← h.follow h.sibling (· = xobj) (h.sons parent)
  let h := match xt, xp with
    | some xt, some xp => h.setSibling xt (h.sibling xp)
    | _, _ => h
  .ok (h.setSibling xobj none)

/-- `__x_object_remove_from_treenode`. -/
def removeFromTreenode (h : Heap) (parent xobj : Addr) : Except Fault Heap := do
  let h := h.setParent xobj none
  let h ← match h.sons parent with
    | none => .ok h
    | some _ => do
        let h ← h.unlinkNext parent xobj
        h.removeSibling parent xobj
  let count := h.childCount parent
  .ok (h.setChildCount parent (if count ≤ 0 then count else count - 1))

/-- The part of `x_object_destroy_no_cb` that unlinks from the sibling list. -/
def unlinkSibling (h : Heap) (parent xobj : Addr) : Except Fault Heap := do
  let (prev, this) ← h.follow h.sibling (· = xobj) (h.sons parent)
  let h := match prev, this with
    | _, none => h
    | none, some this => h.setSons parent (h.sibling this)
    | some prev, some this => h.setSibling prev (h.sibling this)
  .ok (h.setSibling xobj none)

/-- `x_object_destroy_no_cb`. -/
def destroyNoCb (h : Heap) (xobj : Addr) : Except Fault Heap := do
  let xobj ← h.deref (some xobj)
  match h.parent xobj with
  | none => .ok (h.free xobj)
  | some parent =>
      let parent ← h.deref (some parent)
      let h ← h.unlinkSibling parent xobj
      let h ← h.unlinkNext parent xobj
      let h := h.setParent xobj none
      let h := h.setChildCount parent (h.childCount parent - 1)
      .ok (h.free xobj)

/-- `x_object_ref_put` without a callback. -/
def refPut (h : Heap) (o : Option Addr) : Except Fault Heap :=
  match o with
  | none => .ok h
  | some _ => do
      let o ← h.deref o
      let h := h.setRefcount o (h.refcount o - 1)
      if h.refcount o ≤ 0 then h.destroyNoCb o else .ok h

/-- The `$message` object of a notification nobody listens to.  Its name has room. -/
def notify (h : Heap) : Except Fault Heap :=
  let (h, msg) := h.alloc (lit "$message") none
  h.refPut (some msg)

/-- `x_object_append_child`. -/
def appendChild (h : Heap) (parent child : Addr) : Except Fault Heap := do
  let h ← h.appendChildNoCb parent child
  h.getIndex child
  h.notify

/-- `x_object_remove_from_parent`. -/
def removeFromParent (h : Heap) (xobj : Addr) : Except Fault Heap := do
  let xobj ← h.deref (some xobj)
  let parent := h.parent xobj
  let h ← match parent with
    | none => .ok h
    | some p => do
        let p ← h.deref (some p)
        h.getIndex xobj
        let h ← h.removeFromTreenode p xobj
        h.notify
  let h ← h.refPut (some xobj)
  h.refPut parent

end Heap

end Xwbot
