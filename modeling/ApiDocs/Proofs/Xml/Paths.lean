import ApiDocs.Proofs.Xml.Child

/-!
# Changes where a path leads

A path of names leads to one place in a tree: from each element on it to its first child of the next
name. A change along the path puts the new element into the place that a lookup along it finds. As
long as the new element has the name of the old one, it is found in its place from then on, and a
lookup along a path that parts with this one does not notice.
-/

namespace ApiDocs.Xml

namespace Node

variable {p : Element → Bool} {front back : List Node} {old new : Element}

theorem first?_append (front back : List Node) :
    first? p (front ++ back) = (first? p front).or (first? p back) := by
  rw [first?, List.filterMap_append, List.find?_append, first?, first?]

theorem first?_eq_none (hfront : ∀ node ∈ front, node.element?.any p = false) :
    first? p front = none := by
  induction front with
  | nil => rfl
  | cons node rest ih =>
    obtain ⟨hnode, hrest⟩ := List.forall_mem_cons.1 hfront
    rw [first?_cons_of_neg hnode, ih hrest]

theorem first?_between (hfront : ∀ node ∈ front, node.element?.any p = false) (hold : p old = true)
    (back : List Node) : first? p (front ++ old.toNode :: back) = some old := by
  rw [first?_append, first?_eq_none hfront, first?_cons_of_pos hold, Option.none_or]

/-- What is not looked for may be replaced by what is not looked for. -/
theorem first?_between_congr (hold : p old = false) (hnew : p new = false) :
    first? p (front ++ new.toNode :: back) = first? p (front ++ old.toNode :: back) := by
  rw [first?_append, first?_append, first?_cons_of_neg (by simpa using hnew),
    first?_cons_of_neg (by simpa using hold)]

end Node

namespace Element

variable {old new before after : Element} {path : List String}

/-! ## One child -/

theorem child?_eq_first? (e : Element) (name : String) :
    e.child? name = Node.first? (·.name = name) e.children := rfl

namespace ReplacesFirst

theorem child?_before (h : ReplacesFirst old new before after) :
    before.child? old.name = some old := by
  obtain ⟨front, back, hbefore, hfront, -⟩ := h.children
  rw [child?_eq_first?, hbefore]
  exact Node.first?_between hfront (by simp) back

theorem child?_after (h : ReplacesFirst old new before after) (hname : new.name = old.name) :
    after.child? old.name = some new := by
  obtain ⟨front, back, -, hfront, hafter⟩ := h.children
  rw [child?_eq_first?, hafter]
  exact Node.first?_between hfront (by simpa using hname) back

theorem child?_of_ne (h : ReplacesFirst old new before after) (hname : new.name = old.name)
    {other : String} (hother : other ≠ old.name) : after.child? other = before.child? other := by
  obtain ⟨front, back, hbefore, -, hafter⟩ := h.children
  rw [child?_eq_first?, child?_eq_first?, hbefore, hafter]
  have hold : decide (old.name = other) = false := decide_eq_false hother.symm
  exact Node.first?_between_congr hold (by rwa [hname])

end ReplacesFirst

/-! ## A path -/

/-- `after` has `new` in the place to which the path leads in `before`, where `old` stands. All else
is the same: the names and the attributes of the elements on the way, and their other children in
order. -/
inductive ReplacesAt (old new : Element) : List String → Element → Element → Prop
  | here : ReplacesAt old new [] old new
  | inChild {name : String} {path : List String} {before after child changed : Element}
    (hname : child.name = name) (hfirst : ReplacesFirst child changed before after)
    (hchild : ReplacesAt old new path child changed) :
    ReplacesAt old new (name :: path) before after

namespace ReplacesAt

theorem name_eq (h : ReplacesAt old new path before after) (hname : new.name = old.name) :
    after.name = before.name := by
  cases h with
  | here => exact hname
  | inChild _ hfirst _ => exact hfirst.name

/-- The new element is found where the old one was. -/
theorem descend?_after (h : ReplacesAt old new path before after) (hname : new.name = old.name) :
    after.descend? path = some new := by
  induction h with
  | here => rfl
  | inChild hchildName hfirst hchild ih =>
    rw [descend?, ← hchildName, hfirst.child?_after (hchild.name_eq hname), Option.bind_some, ih]

/-- Where two paths part, the lookup along the one takes another child than the change along the
other. -/
theorem descend?_of_not_isPrefix (h : ReplacesAt old new path before after)
    (hname : new.name = old.name) {other : List String} (hshort : ¬ other <+: path)
    (hlong : ¬ path <+: other) : after.descend? other = before.descend? other := by
  induction h generalizing other with
  | here => exact absurd List.nil_prefix hlong
  | @inChild name path before after child changed hchildName hfirst hchild ih =>
    cases other with
    | nil => exact absurd List.nil_prefix hshort
    | cons next rest =>
      have hkept : changed.name = child.name := hchild.name_eq hname
      rw [descend?, descend?]
      by_cases hnext : next = name
      · -- the paths part further below, in the child that is changed
        subst hnext
        rw [List.cons_prefix_cons, not_and] at hshort hlong
        rw [← hchildName, hfirst.child?_after hkept, hfirst.child?_before, Option.bind_some,
          Option.bind_some, ih (hshort rfl) (hlong rfl)]
      · rw [hfirst.child?_of_ne hkept (hchildName ▸ hnext)]

end ReplacesAt

theorem replacesAt_mapPath (f : Element → Element) (h : before.descend? path = some old) :
    ReplacesAt old (f old) path before (before.mapPath f path) := by
  induction path generalizing before with
  | nil =>
    obtain rfl := Option.some.inj h
    exact .here
  | cons name path ih =>
    obtain ⟨child, hchild, hold⟩ := Option.bind_eq_some_iff.1 h
    have hname : child.name = name := by simpa using (Node.exists_split_of_first? hchild).1
    exact .inChild hname (replacesFirst_mapChild hchild (mapPath f path)) (ih hold)

/-- A change along a path is made in the place that a lookup along it finds. -/
structure ChangesFound (path : List String) (old new before after : Element) : Prop where
  found : after.descend? path = some new
  elsewhere : ∀ other, ¬ other <+: path → ¬ path <+: other →
    after.descend? other = before.descend? other
  outside : ReplacesAt old new path before after

theorem isSome_change? (f : Element → Element) (path : List String) (e : Element) :
    (e.change? f path).isSome = (e.descend? path).isSome := by
  rw [change?_eq, Option.isSome_map]

theorem exists_change? (f : Element → Element) (h : before.descend? path = some old)
    (hname : (f old).name = old.name) :
    ∃ after, before.change? f path = some after ∧ ChangesFound path old (f old) before after := by
  have hreplaces := replacesAt_mapPath f h
  refine ⟨before.mapPath f path, by rw [change?_eq, h, Option.map_some], ?_, ?_, hreplaces⟩
  · exact hreplaces.descend?_after hname
  · exact fun other => hreplaces.descend?_of_not_isPrefix hname

end Element

end ApiDocs.Xml
