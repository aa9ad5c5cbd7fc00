import ApiDocs.Xml.Element

/-!
# Trees in normal form

The normal form of a tree has no empty text, no two texts side by side and no text that only lays
the document out. `Node.norm` brings a tree into normal form. Appending nodes one by one leaves
exactly the children that `joinTexts` describes, so what the reader builds can be computed on lists.
-/

namespace ApiDocs.Xml

namespace Node

def isText : Node → Bool
  | .text _ => true
  | _ => false

/-- The text in front of the nodes, as a part of the first of them if that is a text. -/
def joinText (content : String) : List Node → List Node
  | .text first :: rest => .text (content ++ first) :: rest
  | nodes => if content = "" then nodes else .text content :: nodes

/-- Joins every run of adjacent texts into one text. A run without characters vanishes. -/
def joinTexts : List Node → List Node
  | [] => []
  | .text content :: rest => joinText content (joinTexts rest)
  | node :: rest => node :: joinTexts rest

/-- No text is empty, and no two texts are adjacent. -/
def Joined : List Node → Prop
  | [] => True
  | .text content :: rest => content ≠ "" ∧ rest.head?.any isText = false ∧ Joined rest
  | _ :: rest => Joined rest

/-- Every run of adjacent texts as one text, unless it is empty or only layout. -/
def tidy (nodes : List Node) : List Node :=
  (joinTexts nodes).filter (! ·.isIndentation)

mutual

/-- The tree with every list of children tidied. -/
def norm : Node → Node
  | .element name attributes children => .element name attributes (tidy (normList children))
  | node => node

def normList : List Node → List Node
  | [] => []
  | node :: rest => node.norm :: normList rest

end

mutual

/-- The node and all its descendants satisfy `p`. -/
def all (p : Node → Bool) : Node → Bool
  | .element name attributes children =>
    p (.element name attributes children) && allInList p children
  | node => p node

def allInList (p : Node → Bool) : List Node → Bool
  | [] => true
  | node :: rest => node.all p && allInList p rest

end

/-- The nodes hold no empty text, no layout, and no two adjacent texts. -/
def isTidyList : List Node → Bool
  | [] => true
  | .text content :: rest =>
    content ≠ "" && ! (text content).isIndentation && ! rest.head?.any isText && isTidyList rest
  | _ :: rest => isTidyList rest

/-- The children of the node hold no empty text, no layout, and no two adjacent texts. -/
def isTidy : Node → Bool
  | .element _ _ children => isTidyList children
  | _ => true

/-! ## Joining texts -/

theorem joinText_empty (nodes : List Node) : joinText "" nodes = nodes := by
  unfold joinText
  split <;> simp

theorem joinText_joinText (s t : String) (nodes : List Node) :
    joinText s (joinText t nodes) = joinText (s ++ t) nodes := by
  rcases nodes with _ | ⟨_ | _ | _ | _, rest⟩
  case cons.text => simp [joinText, String.append_assoc]
  all_goals
    by_cases hs : s = "" <;> by_cases ht : t = "" <;> simp [joinText, hs, ht]

@[simp] theorem joinTexts_nil : joinTexts [] = [] := rfl

theorem joinTexts_text (content : String) (rest : List Node) :
    joinTexts (.text content :: rest) = joinText content (joinTexts rest) := rfl

theorem joinTexts_cons_of_not_isText {node : Node} (h : node.isText = false) (rest : List Node) :
    joinTexts (node :: rest) = node :: joinTexts rest := by
  cases node <;> simp_all [isText, joinTexts]

theorem joinText_text (s t : String) (rest : List Node) :
    joinText s (.text t :: rest) = .text (s ++ t) :: rest := rfl

theorem joinText_of_not_isText {content : String} (h : content ≠ "") {nodes : List Node}
    (hhead : nodes.head?.any isText = false) : joinText content nodes = .text content :: nodes := by
  unfold joinText
  split
  · simp [isText] at hhead
  · rw [if_neg h]

theorem joinTexts_joinText_append (content : String) (a b : List Node) :
    joinTexts (joinText content a ++ b) = joinText content (joinTexts (a ++ b)) := by
  by_cases hcontent : content = ""
  · rw [hcontent, joinText_empty, joinText_empty]
  · cases hhead : a.head?.any isText with
    | false => rw [joinText_of_not_isText hcontent hhead, List.cons_append, joinTexts_text]
    | true =>
      rcases a with _ | ⟨_ | first | _ | _, rest⟩
      case cons.text =>
        rw [joinText_text, List.cons_append, List.cons_append, joinTexts_text, joinTexts_text,
          joinText_joinText]
      all_goals simp [isText] at hhead

/-- Joining a front part first makes no difference. -/
theorem joinTexts_append (a b : List Node) :
    joinTexts (joinTexts a ++ b) = joinTexts (a ++ b) := by
  induction a with
  | nil => rfl
  | cons node rest ih =>
    cases node with
    | text content =>
      rw [joinTexts_text, joinTexts_joinText_append, ih, List.cons_append, joinTexts_text]
    | _ =>
      rw [joinTexts_cons_of_not_isText rfl, List.cons_append, List.cons_append,
        joinTexts_cons_of_not_isText rfl, joinTexts_cons_of_not_isText rfl, ih]

theorem joined_joinText (content : String) {nodes : List Node} (h : Joined nodes) :
    Joined (joinText content nodes) := by
  by_cases hcontent : content = ""
  · rwa [hcontent, joinText_empty]
  · cases hhead : nodes.head?.any isText with
    | false =>
      rw [joinText_of_not_isText hcontent hhead]
      exact ⟨hcontent, hhead, h⟩
    | true =>
      rcases nodes with _ | ⟨_ | first | _ | _, rest⟩
      case cons.text =>
        obtain ⟨hfirst, hrest⟩ := h
        exact ⟨by simp [hfirst], hrest⟩
      all_goals simp [isText] at hhead

theorem joined_joinTexts (nodes : List Node) : Joined (joinTexts nodes) := by
  induction nodes with
  | nil => trivial
  | cons node rest ih =>
    cases node with
    | text content => exact joined_joinText content ih
    | _ => exact ih

theorem joinTexts_of_joined {nodes : List Node} (h : Joined nodes) : joinTexts nodes = nodes := by
  induction nodes with
  | nil => rfl
  | cons node rest ih =>
    cases node with
    | text content =>
      obtain ⟨hcontent, hhead, hrest⟩ := h
      rw [joinTexts_text, ih hrest, joinText_of_not_isText hcontent hhead]
    | _ => rw [joinTexts_cons_of_not_isText rfl, ih h]

theorem joined_of_append {a b : List Node} (h : Joined (a ++ b)) : Joined a ∧ Joined b := by
  induction a with
  | nil => exact ⟨trivial, h⟩
  | cons node rest ih =>
    cases node with
    | text content =>
      obtain ⟨hcontent, hhead, hrest⟩ := h
      refine ⟨⟨hcontent, ?_, (ih hrest).1⟩, (ih hrest).2⟩
      cases rest with
      | nil => rfl
      | cons next rest => exact hhead
    | _ => exact ih h

theorem innerTextOfList_append (a b : List Node) :
    innerTextOfList (a ++ b) = innerTextOfList a ++ innerTextOfList b := by
  induction a with
  | nil => simp [innerTextOfList]
  | cons node rest ih => simp [innerTextOfList, ih, String.append_assoc]

theorem innerTextOfList_joinText (content : String) (nodes : List Node) :
    innerTextOfList (joinText content nodes) = content ++ innerTextOfList nodes := by
  unfold joinText
  split
  · simp [innerTextOfList, innerText, String.append_assoc]
  · split
    · next hempty => simp [hempty]
    · rfl

/-- No character is lost where texts are joined. -/
theorem innerTextOfList_joinTexts (nodes : List Node) :
    innerTextOfList (joinTexts nodes) = innerTextOfList nodes := by
  induction nodes with
  | nil => rfl
  | cons node rest ih =>
    cases node with
    | text content => rw [joinTexts_text, innerTextOfList_joinText, ih]; rfl
    | _ => rw [joinTexts_cons_of_not_isText rfl, innerTextOfList, ih, innerTextOfList]

/-! ## Appending one by one -/

theorem push_cons_cons (a b node : Node) (rest : List Node) :
    push (a :: b :: rest) node = a :: push (b :: rest) node := by
  cases a <;> cases node <;> rfl

theorem push_ne_nil {nodes : List Node} (h : nodes ≠ []) (node : Node) : push nodes node ≠ [] := by
  rcases nodes with _ | ⟨a, _ | ⟨b, rest⟩⟩
  · exact absurd rfl h
  · cases a <;> cases node <;> simp [push]
  · simp [push_cons_cons]

theorem push_push_text (nodes : List Node) (s t : String) :
    push (push nodes (.text s)) (.text t) = push nodes (.text (s ++ t)) := by
  induction nodes with
  | nil => by_cases hs : s = "" <;> simp [push, hs]
  | cons node rest ih =>
    rcases rest with _ | ⟨next, rest⟩
    · cases node with
      | text last => simp [push, String.append_assoc]
      | _ => by_cases hs : s = "" <;> simp [push, hs]
    · rw [push_cons_cons, push_cons_cons, ← ih]
      obtain ⟨first, others, hpush⟩ :=
        List.exists_cons_of_ne_nil (push_ne_nil (List.cons_ne_nil next rest) (.text s))
      rw [hpush, push_cons_cons]

@[simp] theorem push_text_empty (nodes : List Node) : push nodes (.text "") = nodes := by
  induction nodes with
  | nil => simp [push]
  | cons node rest ih =>
    rcases rest with _ | ⟨next, rest⟩
    · cases node <;> simp [push]
    · rw [push_cons_cons, ih]

theorem push_of_not_isText {node : Node} (h : node.isText = false) (nodes : List Node) :
    push nodes node = nodes ++ [node] := by
  induction nodes with
  | nil => cases node <;> simp_all [isText, push]
  | cons child rest ih => cases node <;> simp_all [isText, push]

/-- To append a node is to join it with the texts before it. -/
theorem push_eq_joinTexts {nodes : List Node} (h : Joined nodes) (node : Node) :
    push nodes node = joinTexts (nodes ++ [node]) := by
  induction nodes with
  | nil => cases node <;> simp [push, joinTexts, joinText]
  | cons child rest ih =>
    cases child with
    | text s =>
      obtain ⟨hs, hhead, hrest⟩ := h
      rw [List.cons_append, joinTexts_text, ← ih hrest]
      rcases rest with _ | ⟨next, rest⟩
      · cases node with
        | text t => by_cases ht : t = "" <;> simp [push, joinText, hs, ht]
        | _ => simp [push, joinText, hs]
      · have hnext : next.isText = false := by simpa using hhead
        rw [push_cons_cons, joinText_of_not_isText hs]
        rw [ih hrest, List.cons_append, joinTexts_cons_of_not_isText hnext]
        simpa using hnext
    | _ =>
      rw [List.cons_append, joinTexts_cons_of_not_isText rfl, ← ih h]
      rcases rest with _ | ⟨next, rest⟩
      · cases node <;> rfl
      · exact push_cons_cons _ _ _ _

theorem foldl_push_eq_joinTexts {nodes : List Node} (h : Joined nodes) (others : List Node) :
    others.foldl push nodes = joinTexts (nodes ++ others) := by
  induction others generalizing nodes with
  | nil => simp [joinTexts_of_joined h]
  | cons node rest ih =>
    rw [List.foldl_cons, push_eq_joinTexts h, ih (joined_joinTexts _), joinTexts_append,
      List.append_assoc, List.singleton_append]

theorem merge_eq_joinTexts (nodes : List Node) : merge nodes = joinTexts nodes :=
  foldl_push_eq_joinTexts (show Joined [] from trivial) nodes

/-! ## Predicates on all nodes of a tree -/

theorem allInList_eq_true_iff {p : Node → Bool} {nodes : List Node} :
    allInList p nodes = true ↔ ∀ node ∈ nodes, node.all p = true := by
  induction nodes with
  | nil => simp [allInList]
  | cons node rest ih => simp [allInList, ih]

theorem all_element_iff {p : Node → Bool} {name : String} {attributes : List Attribute}
    {children : List Node} :
    (element name attributes children).all p = true ↔
      p (element name attributes children) = true ∧ ∀ child ∈ children, child.all p = true := by
  rw [all, Bool.and_eq_true, allInList_eq_true_iff]

theorem all_of_isText {p : Node → Bool} (hp : ∀ content, p (.text content) = true) {node : Node}
    (h : node.isText = true) : node.all p = true := by
  cases node with
  | text content => exact hp content
  | _ => simp [isText] at h

theorem mem_of_mem_joinTexts {node : Node} {nodes : List Node} (h : node ∈ joinTexts nodes) :
    node.isText = true ∨ node ∈ nodes := by
  induction nodes with
  | nil => exact .inr h
  | cons child rest ih =>
    cases child with
    | text content =>
      rw [joinTexts_text] at h
      unfold joinText at h
      split at h
      · next first others heq =>
        rcases List.mem_cons.1 h with rfl | hmem
        · exact .inl rfl
        · exact (ih (heq ▸ List.mem_cons_of_mem _ hmem)).imp_right (List.mem_cons_of_mem _)
      · split at h
        · exact (ih h).imp_right (List.mem_cons_of_mem _)
        · rcases List.mem_cons.1 h with rfl | hmem
          · exact .inl rfl
          · exact (ih hmem).imp_right (List.mem_cons_of_mem _)
    | _ =>
      rw [joinTexts_cons_of_not_isText rfl] at h
      rcases List.mem_cons.1 h with rfl | hmem
      · exact .inr List.mem_cons_self
      · exact (ih hmem).imp_right (List.mem_cons_of_mem _)

/-! ## Normal forms -/

theorem normList_eq_map (nodes : List Node) : normList nodes = nodes.map norm := by
  induction nodes with
  | nil => rfl
  | cons node rest ih => rw [normList, ih, List.map_cons]

theorem norm_element (name : String) (attributes : List Attribute) (children : List Node) :
    (element name attributes children).norm =
      element name attributes (tidy (children.map norm)) := by
  rw [norm, normList_eq_map]

@[simp] theorem isText_norm (node : Node) : node.norm.isText = node.isText := by
  cases node <;> rfl

theorem isTidyList_iff {nodes : List Node} :
    isTidyList nodes = true ↔ Joined nodes ∧ ∀ node ∈ nodes, node.isIndentation = false := by
  induction nodes with
  | nil => simp [isTidyList, Joined]
  | cons node rest ih =>
    cases node with
    | text content =>
      simp only [isTidyList, Joined, ih, Bool.and_eq_true, decide_eq_true_eq, Bool.not_eq_true',
        List.forall_mem_cons]
      constructor
      · rintro ⟨⟨⟨hcontent, hlayout⟩, hhead⟩, hrest, hothers⟩
        exact ⟨⟨hcontent, hhead, hrest⟩, hlayout, hothers⟩
      · rintro ⟨⟨hcontent, hhead, hrest⟩, hlayout, hothers⟩
        exact ⟨⟨⟨hcontent, hlayout⟩, hhead⟩, hrest, hothers⟩
    | _ => simp [isTidyList, Joined, ih, isIndentation]

theorem tidy_of_isTidyList {nodes : List Node} (h : isTidyList nodes = true) :
    tidy nodes = nodes := by
  obtain ⟨hjoined, hlayout⟩ := isTidyList_iff.1 h
  rw [tidy, joinTexts_of_joined hjoined, List.filter_eq_self]
  simpa using hlayout

/-- Leaving texts out brings no two texts together: what stood between them stays. -/
theorem joined_filter {keep : Node → Bool} (hkeep : ∀ node, node.isText = false → keep node = true)
    {nodes : List Node} (h : Joined nodes) : Joined (nodes.filter keep) := by
  induction nodes with
  | nil => exact h
  | cons node rest ih =>
    cases node with
    | text content =>
      obtain ⟨hcontent, hhead, hrest⟩ := h
      cases htext : keep (.text content) with
      | false => simpa [htext] using ih hrest
      | true =>
        rw [List.filter_cons_of_pos htext]
        refine ⟨hcontent, ?_, ih hrest⟩
        rcases rest with _ | ⟨next, rest⟩
        · rfl
        · have hnext : next.isText = false := by simpa using hhead
          simpa [hkeep next hnext] using hnext
    | _ =>
      rw [List.filter_cons_of_pos (hkeep _ rfl)]
      exact ih h

theorem isTidyList_tidy (nodes : List Node) : isTidyList (tidy nodes) = true := by
  refine isTidyList_iff.2 ⟨joined_filter ?_ (joined_joinTexts nodes), ?_⟩
  · intro node h
    cases node <;> simp_all [isText, isIndentation]
  · intro node h
    simpa using (List.mem_filter.1 h).2

theorem mem_of_mem_tidy {node : Node} {nodes : List Node} (h : node ∈ tidy nodes) :
    node.isText = true ∨ node ∈ nodes :=
  mem_of_mem_joinTexts (List.mem_filter.1 h).1

mutual

theorem norm_of_all_isTidy {node : Node} (h : node.all isTidy = true) : node.norm = node := by
  match node with
  | .element name attributes children =>
    obtain ⟨htidy, hchildren⟩ := Bool.and_eq_true_iff.1 h
    rw [norm, normList_of_allInList_isTidy hchildren, tidy_of_isTidyList htidy]
  | .text _ | .cdata _ | .comment _ => rfl

theorem normList_of_allInList_isTidy {nodes : List Node} (h : allInList isTidy nodes = true) :
    normList nodes = nodes := by
  match nodes with
  | [] => rfl
  | node :: rest =>
    obtain ⟨hnode, hrest⟩ := Bool.and_eq_true_iff.1 h
    rw [normList, norm_of_all_isTidy hnode, normList_of_allInList_isTidy hrest]

end

mutual

theorem all_isTidy_norm (node : Node) : node.norm.all isTidy = true := by
  match node with
  | .element name attributes children =>
    rw [norm, all_element_iff]
    refine ⟨isTidyList_tidy _, fun child hchild => ?_⟩
    rcases mem_of_mem_tidy hchild with htext | hmem
    · exact all_of_isText (fun _ => rfl) htext
    · exact all_isTidy_of_mem_normList children child hmem
  | .text _ | .cdata _ | .comment _ => rfl

theorem all_isTidy_of_mem_normList (nodes : List Node) :
    ∀ node ∈ normList nodes, node.all isTidy = true := by
  match nodes with
  | [] => simp [normList]
  | first :: rest =>
    rw [normList, List.forall_mem_cons]
    exact ⟨all_isTidy_norm first, all_isTidy_of_mem_normList rest⟩

end

/-- A tree is its own normal form if there is nothing to tidy in it. -/
theorem norm_eq_self_iff {node : Node} : node.norm = node ↔ node.all isTidy = true :=
  ⟨fun h => h ▸ all_isTidy_norm node, norm_of_all_isTidy⟩

end Node

/-! ## Documents -/

namespace Element

/-- The element with every list of children tidied. -/
def norm (e : Element) : Element :=
  { e with children := Node.tidy (e.children.map Node.norm) }

theorem toNode_norm (e : Element) : e.norm.toNode = e.toNode.norm :=
  (Node.norm_element _ _ _).symm

theorem toNode_inj {e f : Element} : e.toNode = f.toNode ↔ e = f :=
  ⟨fun h => Option.some.inj (congrArg Node.element? h), congrArg toNode⟩

end Element

namespace Document

/-- The document with its root in normal form. -/
def norm (d : Document) : Document :=
  { d with root := d.root.norm }

/-- No element of the document holds an empty text, a text that only lays it out, or two texts
side by side. -/
def isNormal (d : Document) : Bool :=
  d.root.toNode.all Node.isTidy

theorem norm_eq_self_iff {d : Document} : d.norm = d ↔ d.isNormal = true := by
  rw [isNormal, ← Node.norm_eq_self_iff, ← Element.toNode_norm, Element.toNode_inj]
  cases d with
  | mk prolog root => simp [norm]

end Document

end ApiDocs.Xml
