import Inventory.Html.Tokens

/-!
# The structure of a page

The tags of a page with the names of their attributes, as a browser finds them:
a `<` opens a tag before a letter or a slash only, and comments, `<!…>` and
`<?…>` are no tags. Two pieces are `Alike` when they leave no markup open and
have the same tags and names. Pages are compared piece by piece
(`Alike.append`): a text between tags may differ if it is `Plain`, an attribute
value if it does not hold its own quote (`Alike.value`).
-/

namespace Inventory.Html

/-- A tag and the names of its attributes; an end tag's name starts with `/`. -/
structure Mark where
  name : Bytes
  attrs : List Bytes
  deriving DecidableEq, Repr

/-- Where a comment stands. -/
inductive CommentState where
  | start
  | startDash
  | body
  | endDash
  | endDashes
  | endBang
  deriving DecidableEq, Repr

inductive Scan where
  | data
  | tagOpen
  | endTagOpen
  | tagName (n : Bytes)
  | inTag (n : Bytes) (as : List Bytes) (a : AttrState)
  /-- After `<!`, and after its first dash. -/
  | declaration (dash : Bool)
  | comment (c : CommentState)
  /-- A declaration or a comment that ends at the next `>`. -/
  | bogus
  deriving DecidableEq, Repr

def isLetter (b : UInt8) : Bool := 97 ≤ (Bytes.lower b).toNat && (Bytes.lower b).toNat ≤ 122

/-- One byte of a comment; `none` closes it. -/
def commentStep : CommentState → UInt8 → Option CommentState
  | .start, b => if b == 45 then some .startDash else if b == 62 then none else some .body
  | .startDash, b => if b == 45 then some .endDashes else if b == 62 then none else some .body
  | .body, b => if b == 45 then some .endDash else some .body
  | .endDash, b => if b == 45 then some .endDashes else some .body
  | .endDashes, b =>
    if b == 62 then none else if b == 33 then some .endBang
    else if b == 45 then some .endDashes else some .body
  | .endBang, b => if b == 45 then some .endDash else if b == 62 then none else some .body

def Scan.feed : Scan → UInt8 → List Mark × Scan
  | .data, b => if b == 60 then ([], .tagOpen) else ([], .data)
  | .tagOpen, b =>
    if b == 33 then ([], .declaration false)
    else if b == 47 then ([], .endTagOpen)
    else if isLetter b then ([], .tagName [Bytes.lower b])
    else if b == 63 then ([], .bogus)
    -- the `<` was text, and another one may open a tag
    else if b == 60 then ([], .tagOpen)
    else ([], .data)
  | .endTagOpen, b =>
    if isLetter b then ([], .tagName [47, Bytes.lower b])
    else if b == 62 then ([], .data)
    else ([], .bogus)
  | .tagName n, b =>
    if isWs b || b == 47 then ([], .inTag n [] .before)
    else if b == 62 then ([⟨n, []⟩], .data)
    else ([], .tagName (n ++ attrByte (Bytes.lower b)))
  | .inTag n as a, b =>
    match attrStep a b with
    | (new, some a) => ([], .inTag n (as ++ new.map Prod.fst) a)
    | (new, none) => ([⟨n, as ++ new.map Prod.fst⟩], .data)
  | .declaration dash, b =>
    if b == 45 then (if dash then ([], .comment .start) else ([], .declaration true))
    else if b == 62 then ([], .data)
    else ([], .bogus)
  | .comment c, b =>
    match commentStep c b with
    | some c => ([], .comment c)
    | none => ([], .data)
  | .bogus, b => if b == 62 then ([], .data) else ([], .bogus)

def scan : Scan → Bytes → List Mark × Scan
  | q, [] => ([], q)
  | q, b :: s => ((q.feed b).1 ++ (scan (q.feed b).2 s).1, (scan (q.feed b).2 s).2)

/-- Which option is selected does not count. -/
def Mark.unselected (m : Mark) : Mark :=
  if m.name = str "option" then { m with attrs := m.attrs.erase (str "selected") } else m

/-- The tags of a page and the names of their attributes. -/
def skeleton (x : Bytes) : List Mark := (scan .data x).1.map Mark.unselected

/-- The piece leaves no markup open. -/
def Whole (x : Bytes) : Prop := (scan .data x).2 = .data

instance (x : Bytes) : Decidable (Whole x) := inferInstanceAs (Decidable (_ = _))

/-- Text is being read; a `<` may have been the last of it. -/
def Scan.isText : Scan → Bool
  | .data | .tagOpen => true
  | _ => false

/-- A text whose markup, if it has some, is complete. -/
def Closed (t : Bytes) : Prop := (scan .data t).2.isText = true

instance (t : Bytes) : Decidable (Closed t) := inferInstanceAs (Decidable (_ = _))

/-- A text without markup. -/
def Plain (t : Bytes) : Prop := (scan .data t).1 = [] ∧ Closed t

instance (t : Bytes) : Decidable (Plain t) := inferInstanceAs (Decidable (_ ∧ _))

/-- A value in quotes `q` is being read. -/
def Scan.inQuotes (q : UInt8) : Scan → Bool
  | .inTag _ _ (.quoted r _ _) => r == q
  | _ => false

/-- The piece ends inside of a value in quotes `q`. -/
def EndsIn (q : UInt8) (x : Bytes) : Prop := (scan .data x).2.inQuotes q = true

instance (q : UInt8) (x : Bytes) : Decidable (EndsIn q x) := inferInstanceAs (Decidable (_ = _))

theorem scan_append (q : Scan) (x y : Bytes) :
    scan q (x ++ y) = ((scan q x).1 ++ (scan (scan q x).2 y).1, (scan (scan q x).2 y).2) := by
  induction x generalizing q with
  | nil => rfl
  | cons b x ih => simp [scan, ih]

theorem Whole.scan {x : Bytes} (h : Whole x) (y : Bytes) :
    scan .data (x ++ y) = ((scan .data x).1 ++ (scan .data y).1, (scan .data y).2) := by
  rw [scan_append, show (Html.scan .data x).2 = .data from h]

theorem Whole.append {x y : Bytes} (hx : Whole x) (hy : Whole y) : Whole (x ++ y) := by
  rw [Whole, hx.scan]
  exact hy

theorem Whole.skeleton {x : Bytes} (h : Whole x) (y : Bytes) :
    skeleton (x ++ y) = skeleton x ++ skeleton y := by
  rw [Html.skeleton, h.scan, List.map_append]
  rfl

/-- What may follow a text: a tag, or a space. -/
def Follows (y : Bytes) : Prop := scan .tagOpen y = scan .data y

/-- Behind a text whose markup is complete a page is read as it is read anyway. -/
theorem Closed.scan {t y : Bytes} (h : Closed t) (hy : Follows y) :
    scan .data (t ++ y) = ((Html.scan .data t).1 ++ (Html.scan .data y).1, (Html.scan .data y).2) := by
  rw [scan_append]
  unfold Closed at h
  cases hq : (Html.scan .data t).2 with
  | data => rfl
  | tagOpen => rw [hy]
  | _ =>
    rw [hq] at h
    cases h

theorem Plain.scan {t y : Bytes} (h : Plain t) (hy : Follows y) :
    scan .data (t ++ y) = Html.scan .data y := by
  rw [h.2.scan hy, h.1]
  rfl

/-- Inside a quoted value everything but its quote belongs to the value. -/
theorem scan_quoted {v : Bytes} {q : UInt8} (h : ∀ b ∈ v, b ≠ q) (n : Bytes) (as : List Bytes)
    (m w : Bytes) : scan (.inTag n as (.quoted q m w)) v =
      ([], .inTag n as (.quoted q m (w ++ v.flatMap attrByte))) := by
  induction v generalizing w with
  | nil => simp [scan]
  | cons b v ih =>
    have hb : (b == q) = false := by simpa using h b List.mem_cons_self
    simp [scan, Scan.feed, attrStep, hb, ih (fun c hc => h c (List.mem_cons_of_mem _ hc))]

/-- After its quote the value is forgotten. -/
theorem scan_endQuote (q : UInt8) (n : Bytes) (as : List Bytes) (m v w y : Bytes) :
    scan (.inTag n as (.quoted q m v)) (q :: y) = scan (.inTag n as (.quoted q m w)) (q :: y) := by
  simp only [scan, Scan.feed, attrStep, beq_self_eq_true, if_true, List.map_cons, List.map_nil]

theorem EndsIn.state {q : UInt8} {x : Bytes} (h : EndsIn q x) :
    ∃ n as m v, (scan .data x).2 = .inTag n as (.quoted q m v) := by
  unfold EndsIn Scan.inQuotes at h
  split at h
  · next n as r m v hs => exact ⟨n, as, m, v, by rw [hs, beq_iff_eq.mp h]⟩
  · cases h

/-- **A value that does not hold its quote is not seen.** -/
theorem scan_value {o v : Bytes} {q : UInt8} (ho : EndsIn q o) (hv : ∀ b ∈ v, b ≠ q) (y : Bytes) :
    scan .data (o ++ (v ++ q :: y)) = scan .data (o ++ q :: y) := by
  obtain ⟨n, as, m, w, h⟩ := ho.state
  rw [scan_append, scan_append _ o (q :: y), h, scan_append, scan_quoted hv, List.nil_append,
    scan_endQuote q n as m _ w]

/-! ## Open tags -/

/-- The piece is whole, and has no tag of the name. -/
def Lacks (n x : Bytes) : Prop := Whole x ∧ n ∉ (scan .data x).1.map Mark.name

instance (n x : Bytes) : Decidable (Lacks n x) := inferInstanceAs (Decidable (_ ∧ _))

namespace Lacks

variable {n x y : Bytes}

theorem of_scan (h : Lacks n y) (hx : scan .data x = scan .data y) : Lacks n x := by
  unfold Lacks Whole at *
  rw [hx]
  exact h

theorem append (hx : Lacks n x) (hy : Lacks n y) : Lacks n (x ++ y) := by
  refine ⟨hx.1.append hy.1, ?_⟩
  rw [hx.1.scan, List.map_append, List.mem_append]
  exact not_or.mpr ⟨hx.2, hy.2⟩

theorem flatMap {α : Type} {f : α → Bytes} {l : List α} (h : ∀ a ∈ l, Lacks n (f a)) :
    Lacks n (l.flatMap f) := by
  induction l with
  | nil => exact ⟨rfl, List.not_mem_nil⟩
  | cons a l ih =>
    rw [List.flatMap_cons]
    exact (h a List.mem_cons_self).append (ih fun b hb => h b (List.mem_cons_of_mem _ hb))

end Lacks

/-! ## Pieces of two pages -/

/-- Two pieces with the same structure. -/
structure Alike (x y : Bytes) : Prop where
  left : Whole x
  right : Whole y
  skeleton : skeleton x = skeleton y

/-- The left piece has at least the tags of the right one, and the same structure iff `P`. -/
structure Compared (P : Prop) (x y : Bytes) : Prop where
  left : Whole x
  right : Whole y
  le : (skeleton y).length ≤ (skeleton x).length
  same : P → skeleton x = skeleton y
  only : (skeleton x).length = (skeleton y).length → P

namespace Alike

variable {x y z x' y' : Bytes}

theorem refl (h : Whole x) : Alike x x := ⟨h, h, rfl⟩

/-- Pieces that are read like two others. -/
theorem congr (h : Alike x y) (hx : scan .data x' = scan .data x)
    (hy : scan .data y' = scan .data y) : Alike x' y' := by
  refine ⟨?_, ?_, ?_⟩
  · rw [Whole, hx]
    exact h.left
  · rw [Whole, hy]
    exact h.right
  · rw [Html.skeleton, Html.skeleton, hx, hy]
    exact h.skeleton

/-- Pieces that are read like one. -/
theorem of_scan (hx : scan .data x = scan .data z) (hy : scan .data y = scan .data z)
    (hz : Whole z) : Alike x y :=
  (refl hz).congr hx hy

theorem append (h : Alike x y) (h' : Alike x' y') : Alike (x ++ x') (y ++ y') where
  left := h.left.append h'.left
  right := h.right.append h'.right
  skeleton := by rw [h.left.skeleton, h.right.skeleton, h.skeleton, h'.skeleton]

/-- Lists of pieces, one after the other. -/
theorem flatMap {α β : Type} {f : α → Bytes} {g : β → Bytes} {l : List α} {m : List β}
    (h : List.Forall₂ (fun a b => Alike (f a) (g b)) l m) : Alike (l.flatMap f) (m.flatMap g) := by
  induction h with
  | nil => exact refl rfl
  | cons h _ ih => exact h.append ih

/-- **A text between tags.** -/
theorem text {s t c : Bytes} (hs : Plain s) (ht : Plain t) (hf : Follows c) (hc : Whole c) :
    Alike (s ++ c) (t ++ c) :=
  of_scan (hs.scan hf) (ht.scan hf) hc

/-- **The value of an attribute.** -/
theorem value {q : UInt8} {o v w y : Bytes} (ho : EndsIn q o) (hv : ∀ b ∈ v, b ≠ q)
    (hw : ∀ b ∈ w, b ≠ q) (hy : Whole (o ++ q :: y)) :
    Alike (o ++ (v ++ q :: y)) (o ++ (w ++ q :: y)) :=
  of_scan (scan_value ho hv y) (scan_value ho hw y) hy

theorem compared (h : Alike x y) : Compared True x y where
  left := h.left
  right := h.right
  le := by rw [h.skeleton]
  same _ := h.skeleton
  only _ := trivial

end Alike

namespace Compared

variable {P Q : Prop} {x y x' y' : Bytes}

theorem congr (h : Compared P x y) (hPQ : P ↔ Q) : Compared Q x y :=
  ⟨h.left, h.right, h.le, fun hq => h.same (hPQ.mpr hq), fun hl => hPQ.mp (h.only hl)⟩

theorem append (h : Compared P x y) (h' : Compared Q x' y') :
    Compared (P ∧ Q) (x ++ x') (y ++ y') := by
  have hle := h.le
  have hle' := h'.le
  refine ⟨h.left.append h'.left, h.right.append h'.right, ?_, ?_, ?_⟩
  · rw [h.left.skeleton, h.right.skeleton, List.length_append, List.length_append]
    omega
  · rintro ⟨hP, hQ⟩
    rw [h.left.skeleton, h.right.skeleton, h.same hP, h'.same hQ]
  · intro hlen
    rw [h.left.skeleton, h.right.skeleton, List.length_append, List.length_append] at hlen
    exact ⟨h.only (by omega), h'.only (by omega)⟩

/-- Lists of pieces: the structure is the same iff it is at each of them. -/
theorem flatMap {α β : Type} {P : α → Prop} {f : α → Bytes} {g : β → Bytes} {l : List α}
    {m : List β} (h : List.Forall₂ (fun a b => Compared (P a) (f a) (g b)) l m) :
    Compared (∀ a ∈ l, P a) (l.flatMap f) (m.flatMap g) := by
  induction h with
  | nil => exact (Alike.refl (x := []) rfl).compared.congr (by simp)
  | cons h _ ih => exact (h.append ih).congr (by simp)

/-- A text whose markup is complete, where a plain one could stand. -/
theorem text {s t c : Bytes} (hs : Closed s) (ht : Plain t) (hf : Follows c) (hc : Whole c) :
    Compared (Plain s) (s ++ c) (t ++ c) := by
  have hx : skeleton (s ++ c) = (scan .data s).1.map Mark.unselected ++ skeleton c := by
    rw [skeleton, hs.scan hf, List.map_append]
    rfl
  have hy : skeleton (t ++ c) = skeleton c := by
    rw [skeleton, ht.scan hf]
    rfl
  refine ⟨?_, ?_, ?_, ?_, ?_⟩
  · rw [Whole, hs.scan hf]
    exact hc
  · rw [Whole, ht.scan hf]
    exact hc
  · rw [hx, hy, List.length_append]
    omega
  · intro hP
    rw [hx, hy, hP.1]
    rfl
  · intro hlen
    rw [hx, hy, List.length_append, List.length_map] at hlen
    exact ⟨List.eq_nil_of_length_eq_zero (by omega), hs⟩

theorem iff (h : Compared P x y) : skeleton x = skeleton y ↔ P :=
  ⟨fun he => h.only (by rw [he]), h.same⟩

end Compared

end Inventory.Html
