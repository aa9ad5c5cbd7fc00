import ApiDocs.Xml.Element

/-!
# Changing first children

A change below an element follows a path of names, and takes the first child of each name. Here
the change is made total: where the path leads nowhere, nothing happens. Total changes compose,
changes below different names commute, and a lookup below another name does not see them.
-/

namespace ApiDocs.Xml

namespace Node

/-- The first element among the nodes that satisfies `p`. -/
def first? (p : Element → Bool) (nodes : List Node) : Option Element :=
  (nodes.filterMap element?).find? p

/-- Changes the first element among the nodes that satisfies `p`, if there is one. -/
def mapFirst (p : Element → Bool) (change : Element → Element) : List Node → List Node
  | [] => []
  | node :: rest =>
    match node.element? with
    | some e => if p e then (change e).toNode :: rest else node :: mapFirst p change rest
    | none => node :: mapFirst p change rest

variable {p q : Element → Bool} {f g : Element → Element}

/-! ## One step along the nodes -/

theorem first?_cons (node : Node) (rest : List Node) :
    first? p (node :: rest) = ((node.element?).filter p).or (first? p rest) := by
  rw [first?, List.filterMap_cons]
  cases helement : node.element? with
  | none => rfl
  | some e => cases hp : p e <;> simp [first?, Option.filter, hp, -List.find?_filterMap]

theorem mapFirst_cons_of_pos {e : Element} (h : p e = true) (rest : List Node) :
    mapFirst p f (e.toNode :: rest) = (f e).toNode :: rest := by
  simp [mapFirst, h]

theorem mapFirst_cons_of_neg {node : Node} (h : (node.element?).any p = false)
    (rest : List Node) : mapFirst p f (node :: rest) = node :: mapFirst p f rest := by
  rw [mapFirst]
  cases helement : node.element? with
  | none => rfl
  | some e => simp_all

theorem eq_toNode_or (p : Element → Bool) (node : Node) :
    (∃ e, node = e.toNode ∧ p e = true) ∨ (node.element?).any p = false := by
  cases helement : node.element? with
  | none => exact .inr rfl
  | some e =>
    cases hp : p e with
    | true => exact .inl ⟨e, element?_eq_some_iff.1 helement, hp⟩
    | false => exact .inr hp

theorem first?_cons_of_pos {e : Element} (h : p e = true) (rest : List Node) :
    first? p (e.toNode :: rest) = some e := by
  simp [first?_cons, h]

theorem first?_cons_of_neg {node : Node} (h : (node.element?).any p = false)
    (rest : List Node) : first? p (node :: rest) = first? p rest := by
  rw [first?_cons]
  cases helement : node.element? <;> simp_all [Option.filter]

theorem changeFirst?_cons_of_pos {e : Element} (h : p e = true)
    (change : Element → Option Element) (rest : List Node) :
    changeFirst? p change (e.toNode :: rest) =
      (change e).map fun changed => changed.toNode :: rest := by
  simp [changeFirst?, h]

theorem changeFirst?_cons_of_neg {node : Node} (h : (node.element?).any p = false)
    (change : Element → Option Element) (rest : List Node) :
    changeFirst? p change (node :: rest) = (changeFirst? p change rest).map (node :: ·) := by
  rw [changeFirst?]
  cases helement : node.element? <;> simp_all

/-! ## Changes along the nodes -/

/-- A partial change succeeds on the first element, or there is none. -/
theorem changeFirst?_eq (change : Element → Option Element) (nodes : List Node) :
    changeFirst? p change nodes =
      ((first? p nodes).bind change).map fun changed => mapFirst p (fun _ => changed) nodes := by
  induction nodes with
  | nil => rfl
  | cons node rest ih =>
    rcases eq_toNode_or p node with ⟨e, rfl, hp⟩ | hp
    · rw [changeFirst?_cons_of_pos hp, first?_cons_of_pos hp]
      simp [mapFirst_cons_of_pos hp]
    · rw [changeFirst?_cons_of_neg hp, first?_cons_of_neg hp, ih]
      simp [mapFirst_cons_of_neg hp, Function.comp_def]

theorem mapFirst_congr {nodes : List Node} (h : ∀ e, first? p nodes = some e → f e = g e) :
    mapFirst p f nodes = mapFirst p g nodes := by
  induction nodes with
  | nil => rfl
  | cons node rest ih =>
    rcases eq_toNode_or p node with ⟨e, rfl, hp⟩ | hp
    · rw [mapFirst_cons_of_pos hp, mapFirst_cons_of_pos hp, h e (first?_cons_of_pos hp rest)]
    · rw [mapFirst_cons_of_neg hp, mapFirst_cons_of_neg hp, ih]
      rwa [first?_cons_of_neg hp] at h

@[simp] theorem mapFirst_id (nodes : List Node) : mapFirst p (fun e => e) nodes = nodes := by
  induction nodes with
  | nil => rfl
  | cons node rest ih =>
    rcases eq_toNode_or p node with ⟨e, rfl, hp⟩ | hp
    · rw [mapFirst_cons_of_pos hp]
    · rw [mapFirst_cons_of_neg hp, ih]

/-- Where the first element that satisfies `p` stands, and what a change of it leaves around it. -/
theorem exists_split_of_first? {nodes : List Node} {e : Element} (h : first? p nodes = some e) :
    p e = true ∧ ∃ front back, nodes = front ++ e.toNode :: back ∧
      (∀ node ∈ front, (node.element?).any p = false) ∧
      ∀ f, mapFirst p f nodes = front ++ (f e).toNode :: back := by
  induction nodes with
  | nil => cases h
  | cons node rest ih =>
    rcases eq_toNode_or p node with ⟨x, rfl, hp⟩ | hp
    · obtain rfl : x = e := by simpa [first?_cons_of_pos hp] using h
      exact ⟨hp, [], rest, rfl, by simp, fun f => mapFirst_cons_of_pos hp rest⟩
    · rw [first?_cons_of_neg hp] at h
      obtain ⟨hfound, front, back, hnodes, hfront, hmap⟩ := ih h
      refine ⟨hfound, node :: front, back, by rw [hnodes, List.cons_append], ?_, fun f => ?_⟩
      · exact List.forall_mem_cons.2 ⟨hp, hfront⟩
      · rw [mapFirst_cons_of_neg hp, hmap, List.cons_append]

theorem first?_mapFirst (hf : ∀ e, p e = true → p (f e) = true) (nodes : List Node) :
    first? p (mapFirst p f nodes) = (first? p nodes).map f := by
  induction nodes with
  | nil => rfl
  | cons node rest ih =>
    rcases eq_toNode_or p node with ⟨e, rfl, hp⟩ | hp
    · rw [mapFirst_cons_of_pos hp, first?_cons_of_pos hp, first?_cons_of_pos (hf e hp),
        Option.map_some]
    · rw [mapFirst_cons_of_neg hp, first?_cons_of_neg hp, first?_cons_of_neg hp, ih]

/-- Elements that `q` tells from those that `p` finds are found as before. -/
theorem first?_mapFirst_of_disjoint (h : ∀ e, p e = true → q e = false ∧ q (f e) = false)
    (nodes : List Node) : first? q (mapFirst p f nodes) = first? q nodes := by
  induction nodes with
  | nil => rfl
  | cons node rest ih =>
    rcases eq_toNode_or p node with ⟨e, rfl, hp⟩ | hp
    · rw [mapFirst_cons_of_pos hp, first?_cons_of_neg (by simpa using (h e hp).2),
        first?_cons_of_neg (by simpa using (h e hp).1)]
    · rw [mapFirst_cons_of_neg hp, first?_cons, first?_cons, ih]

theorem mapFirst_mapFirst (hg : ∀ e, p e = true → p (g e) = true) (nodes : List Node) :
    mapFirst p f (mapFirst p g nodes) = mapFirst p (fun e => f (g e)) nodes := by
  induction nodes with
  | nil => rfl
  | cons node rest ih =>
    rcases eq_toNode_or p node with ⟨e, rfl, hp⟩ | hp
    · rw [mapFirst_cons_of_pos hp, mapFirst_cons_of_pos (hg e hp), mapFirst_cons_of_pos hp]
    · rw [mapFirst_cons_of_neg hp, mapFirst_cons_of_neg hp, mapFirst_cons_of_neg hp, ih]

theorem mapFirst_comm (hf : ∀ e, p e = true → q e = false ∧ q (f e) = false)
    (hg : ∀ e, q e = true → p e = false ∧ p (g e) = false) (nodes : List Node) :
    mapFirst p f (mapFirst q g nodes) = mapFirst q g (mapFirst p f nodes) := by
  induction nodes with
  | nil => rfl
  | cons node rest ih =>
    rcases eq_toNode_or p node with ⟨e, rfl, hp⟩ | hp
    · rw [mapFirst_cons_of_neg (p := q) (by simpa using (hf e hp).1), mapFirst_cons_of_pos hp,
        mapFirst_cons_of_pos hp, mapFirst_cons_of_neg (by simpa using (hf e hp).2)]
    · rcases eq_toNode_or q node with ⟨e, rfl, hq⟩ | hq
      · rw [mapFirst_cons_of_pos hq, mapFirst_cons_of_neg (by simpa using (hg e hq).2),
          mapFirst_cons_of_neg hp, mapFirst_cons_of_pos hq]
      · rw [mapFirst_cons_of_neg hq, mapFirst_cons_of_neg hp, mapFirst_cons_of_neg hp,
          mapFirst_cons_of_neg hq, ih]

end Node

namespace Element

/-- Changes the first child of this name, if there is one. -/
def mapChild (name : String) (change : Element → Element) (e : Element) : Element :=
  { e with children := Node.mapFirst (·.name = name) change e.children }

def mapPath (change : Element → Element) : List String → Element → Element
  | [], e => change e
  | name :: path, e => e.mapChild name (mapPath change path)

def withChildren (children : List Node) (e : Element) : Element :=
  { e with children }

@[simp] theorem name_mapChild (name : String) (f : Element → Element) (e : Element) :
    (e.mapChild name f).name = e.name := rfl

@[simp] theorem name_withChildren (children : List Node) (e : Element) :
    (e.withChildren children).name = e.name := rfl

/-- The change keeps the name of every element. -/
def KeepsName (f : Element → Element) : Prop :=
  ∀ e, (f e).name = e.name

variable {f g : Element → Element} {name other : String}

theorem keepsName_mapChild : KeepsName (mapChild name f) := fun _ => rfl

theorem keepsName_withChildren {children : List Node} : KeepsName (withChildren children) :=
  fun _ => rfl

theorem child?_mapChild (hf : KeepsName f) (e : Element) :
    (e.mapChild name f).child? name = (e.child? name).map f :=
  Node.first?_mapFirst (by simp [hf _]) e.children

theorem child?_mapChild_of_ne (hf : KeepsName f) (h : name ≠ other) (e : Element) :
    (e.mapChild name f).child? other = e.child? other := by
  refine Node.first?_mapFirst_of_disjoint (fun x hx => ?_) e.children
  simp only [decide_eq_true_eq] at hx
  simp [hf x, hx, h]

theorem mapChild_mapChild (hg : KeepsName g) (e : Element) :
    (e.mapChild name g).mapChild name f = e.mapChild name fun x => f (g x) := by
  simp only [mapChild, mk.injEq, true_and]
  exact Node.mapFirst_mapFirst (by simp [hg _]) e.children

theorem mapChild_comm (hf : KeepsName f) (hg : KeepsName g) (h : name ≠ other) (e : Element) :
    (e.mapChild other g).mapChild name f = (e.mapChild name f).mapChild other g := by
  simp only [mapChild, mk.injEq, true_and]
  refine Node.mapFirst_comm (fun x hx => ?_) (fun x hx => ?_) e.children
  · simp only [decide_eq_true_eq] at hx
    simp [hf x, hx, h]
  · simp only [decide_eq_true_eq] at hx
    simp [hg x, hx, Ne.symm h]

@[simp] theorem mapChild_id (e : Element) : (e.mapChild name fun x => x) = e := by
  simp [mapChild]

theorem mapChild_congr {e : Element} (h : ∀ x, e.child? name = some x → f x = g x) :
    e.mapChild name f = e.mapChild name g := by
  simp only [mapChild, mk.injEq, true_and]
  exact Node.mapFirst_congr h

/-- `after` has `new` where `before` has `old`, its first child of this name. All else is the
same. -/
structure ReplacesFirst (old new before after : Element) : Prop where
  name : after.name = before.name
  attributes : after.attributes = before.attributes
  children : ∃ front back, before.children = front ++ old.toNode :: back ∧
    (∀ node ∈ front, (node.element?).any (·.name = old.name) = false) ∧
    after.children = front ++ new.toNode :: back

theorem replacesFirst_mapChild {e child : Element} (h : e.child? name = some child)
    (f : Element → Element) : ReplacesFirst child (f child) e (e.mapChild name f) := by
  obtain ⟨hname, front, back, hchildren, hfront, hmap⟩ := Node.exists_split_of_first? h
  obtain rfl : child.name = name := of_decide_eq_true hname
  exact ⟨rfl, rfl, front, back, hchildren, hfront, hmap f⟩

/-- A partial change of a child, in terms of the total one. -/
theorem changeChild?_eq (change : Element → Option Element) (e : Element) :
    e.changeChild? (·.name = name) change =
      ((e.child? name).bind change).map fun changed => e.mapChild name fun _ => changed := by
  rw [changeChild?, Node.changeFirst?_eq, Option.map_map]
  rfl

/-- A change along a path succeeds if the path leads somewhere. -/
theorem change?_eq (f : Element → Element) (path : List String) (e : Element) :
    change? f path e = (e.descend? path).map fun _ => e.mapPath f path := by
  induction path generalizing e with
  | nil => rfl
  | cons name path ih =>
    rw [change?, changeChild?_eq, descend?]
    cases hchild : e.child? name with
    | none => rfl
    | some x =>
      simp only [Option.bind_some, ih, Option.map_map]
      congr 1
      funext _
      exact mapChild_congr fun y hy => by rw [Option.some.inj (hchild.symm.trans hy)]

end Element

end ApiDocs.Xml
