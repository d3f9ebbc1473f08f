import PluginHost.Proofs.Json.Delimited
import PluginHost.Proofs.Json.Strings

/-!
Canonical texts. Two values without floats have the same canonical text exactly if they are equal up
to the order of the fields of objects, at every depth.
-/
namespace PluginHost

/-- Entries that differ in their order alone are put into the same order if no two have the same
name. -/
theorem entriesInOrder_eq {α : Type} {es fs : List (String × α)} (h : es.Perm fs)
    (distinct : (es.map Prod.fst).Nodup) : entriesInOrder es = entriesInOrder fs := by
  have total (a b : String × α) : decide (a.1 ≤ b.1) = true ∨ decide (b.1 ≤ a.1) = true := by
    simpa using le_total a.1 b.1
  have trans (a b c : String × α) (hab : decide (a.1 ≤ b.1) = true)
      (hbc : decide (b.1 ≤ c.1) = true) : decide (a.1 ≤ c.1) = true := by
    simp only [decide_eq_true_eq] at *
    exact le_trans hab hbc
  have sorted := pairwise_inOrder total trans es
  have sorted' := pairwise_inOrder total trans fs
  refine ((perm_inOrder _ es).trans (h.trans (perm_inOrder _ fs).symm)).eq_of_pairwise ?_
    sorted sorted'
  intro a b ha hb hab hba
  simp only [decide_eq_true_eq] at hab hba
  have member : a ∈ es := (perm_inOrder _ es).mem_iff.1 ha
  have other : b ∈ es := h.mem_iff.2 ((perm_inOrder _ fs).mem_iff.1 hb)
  exact List.inj_on_of_nodup_map distinct member other (le_antisymm hab hba)

namespace Json

/-- Values that are equal up to the order of the fields of objects, at every depth. -/
inductive Alike : Json → Json → Prop where
  | null : Alike .null .null
  | bool (b : Bool) : Alike (.bool b) (.bool b)
  | int (i : Int) : Alike (.int i) (.int i)
  | float (x : Float) : Alike (.float x) (.float x)
  | text (s : String) : Alike (.text s) (.text s)
  | array {vs ws : List Json} (items : List.Forall₂ Alike vs ws) : Alike (.array vs) (.array ws)
  | object {fs gs hs : List (String × Json)} (names : fs.map Prod.fst = hs.map Prod.fst)
      (values : List.Forall₂ Alike (fs.map Prod.snd) (hs.map Prod.snd)) (reordered : hs.Perm gs) :
      Alike (.object fs) (.object gs)

/-- Values without floats in which each object names its fields once. -/
inductive Plain : Json → Prop where
  | null : Plain .null
  | bool (b : Bool) : Plain (.bool b)
  | int (i : Int) : Plain (.int i)
  | text (s : String) : Plain (.text s)
  | array {vs : List Json} (items : ∀ v ∈ vs, Plain v) : Plain (.array vs)
  | object {fs : List (String × Json)} (distinct : (fs.map Prod.fst).Nodup)
      (values : ∀ v ∈ fs.map Prod.snd, Plain v) : Plain (.object fs)

variable {v w : Json} {vs ws : List Json} {fs gs : List (String × Json)}
  {ss ts : List (List Char)} {es es' : List (String × List Char)}

theorem renderItems_eq (vs : List Json) : renderItems vs = vs.map render := by
  induction vs with
  | nil => rfl
  | cons v vs ih => rw [renderItems, ih, List.map_cons]

theorem renderFields_eq (fs : List (String × Json)) :
    renderFields fs = fs.map fun f => (f.1, f.2.render) := by
  induction fs with
  | nil => rfl
  | cons f fs ih => rw [renderFields, ih, List.map_cons]

theorem renderFields_inj :
    renderFields fs = renderFields gs ↔
      fs.map Prod.fst = gs.map Prod.fst ∧
        (fs.map Prod.snd).map render = (gs.map Prod.snd).map render := by
  rw [renderFields_eq, renderFields_eq]
  induction fs generalizing gs with
  | nil => cases gs <;> simp
  | cons f fs ih =>
    cases gs with
    | nil => simp
    | cons g gs =>
      simp only [List.map_cons, List.cons.injEq, ih, Prod.mk.injEq]
      tauto

/-- The type of the values whose text starts like this. -/
def typeOf : List Char → String
  | [] => ""
  | 'n' :: _ => Json.null.typeName
  | 't' :: _ | 'f' :: _ => (Json.bool true).typeName
  | '"' :: _ => (Json.text "").typeName
  | '[' :: _ => (Json.array []).typeName
  | '\x7b' :: _ => (Json.object []).typeName
  | _ => (Json.int 0).typeName

theorem typeOf_digits {cs : List Char} (hne : cs ≠ []) (hc : ∀ c ∈ cs, c.isDigit = true) :
    typeOf cs = (Json.int 0).typeName := by
  unfold typeOf
  split
  case h_1 => exact (hne rfl).elim
  case h_8 => rfl
  all_goals exact absurd (hc _ (List.mem_cons_self ..)) (by decide)

theorem typeOf_int (i : Int) : typeOf (toString i).toList = (Json.int i).typeName := by
  cases i with
  | ofNat n =>
    refine typeOf_digits ?_ fun c hc => ?_
    · exact fun empty => Nat.repr_ne_empty (String.toList_eq_nil_iff.1 empty)
    · rw [show toString (Int.ofNat n) = n.repr from rfl, Nat.repr, String.toList_ofList] at hc
      exact Nat.isDigit_of_mem_toDigits (by decide) (by decide) hc
  | negSucc n =>
    rw [Int.toString_eq_repr, Int.repr, String.toList_append]
    rfl

/-- A text shows the type of the value that it stands for. -/
theorem typeOf_render (hv : v.Plain) : typeOf v.render = v.typeName := by
  cases hv with
  | null => rw [render]; rfl
  | bool b => cases b <;> rw [render] <;> rfl
  | int i => rw [render]; exact typeOf_int i
  | text s => rw [render]; rfl
  | array items => rw [render]; rfl
  | object distinct values => rw [render]; rfl

theorem render_ne_nil (hv : v.Plain) : v.render ≠ [] := by
  intro empty
  have type := typeOf_render hv
  rw [empty] at type
  cases hv <;> simp [typeOf, typeName] at type

/-- Texts with commas between them can be told from each other. -/
theorem separated_inj (hs : ∀ s ∈ ss, Whole s ∧ s ≠ []) (ht : ∀ t ∈ ts, Whole t ∧ t ≠ [])
    (h : separated ss = separated ts) : ss = ts := by
  induction ss generalizing ts with
  | nil =>
    cases ts with
    | nil => rfl
    | cons t ts => cases ts <;> simp_all [separated]
  | cons s ss ih =>
    obtain ⟨first, others⟩ := List.forall_mem_cons.1 hs
    cases ts with
    | nil => cases ss <;> simp_all [separated]
    | cons t ts =>
      obtain ⟨first', others'⟩ := List.forall_mem_cons.1 ht
      -- A text alone holds no comma that separates.
      have alone {s t r : List Char} (hs : Whole s) (ht : Whole t) : s ≠ t ++ ',' :: r := by
        intro same
        have rest := hs.past_append 0 []
        rw [List.append_nil, same, ht.past_comma] at rest
        cases rest
      cases ss with
      | nil =>
        cases ts with
        | nil => exact congrArg (· :: []) h
        | cons u us => exact (alone first.1 first'.1 h).elim
      | cons r rs =>
        cases ts with
        | nil => exact (alone first'.1 first.1 h.symm).elim
        | cons u us =>
          obtain ⟨rfl, rest⟩ := first.1.append_inj first'.1 h
          rw [ih others others' (List.cons.inj rest).2]

/-- How a field stands in a text. -/
def row (e : String × List Char) : List Char := string e.1 ++ ':' :: ' ' :: e.2

theorem row_injective : Function.Injective row := by
  intro e e' h
  obtain ⟨name, rest⟩ := string_append_inj h
  exact Prod.ext name (List.cons.inj (List.cons.inj rest).2).2

theorem whole_row {e : String × List Char} (he : Whole e.2) : Whole (row e) := by
  have colon : Whole [':', ' '] := .of_ordinary (by simp [Ordinary])
  exact (whole_string e.1).append (colon.append he)

theorem render_object (fs : List (String × Json)) :
    (Json.object fs).render =
      '\x7b' :: separated ((entriesInOrder (renderFields fs)).map row) ++ ['\x7d'] := by
  rw [render]
  rfl

/-- Objects have the same text exactly if their fields do, up to order. -/
theorem render_object_inj (distinct : (fs.map Prod.fst).Nodup) :
    (Json.object fs).render = (Json.object gs).render ↔
      (renderFields fs).Perm (renderFields gs) := by
  have rows (fs : List (String × Json)) :
      ∀ s ∈ (entriesInOrder (renderFields fs)).map row, Whole s ∧ s ≠ [] := by
    intro s hs
    obtain ⟨e, he, rfl⟩ := List.mem_map.1 hs
    have value := whole_renderFields fs e ((perm_inOrder ..).mem_iff.1 he)
    exact ⟨whole_row value, by simp [row, string]⟩
  constructor
  · intro h
    rw [render_object, render_object] at h
    have inside := List.append_cancel_right (List.cons.inj h).2
    have same := List.map_injective_iff.2 row_injective (separated_inj (rows fs) (rows gs) inside)
    have perm := (perm_inOrder (fun a b => decide (a.1 ≤ b.1)) (renderFields fs)).symm
    rw [← entriesInOrder, same] at perm
    exact perm.trans (perm_inOrder ..)
  · intro h
    have names : ((renderFields fs).map Prod.fst).Nodup := by
      rw [renderFields_eq, List.map_map]
      exact distinct
    rw [render_object, render_object, entriesInOrder_eq h names]

theorem render_array_eq (hv : ∀ v ∈ vs, v.Plain) (hw : ∀ w ∈ ws, w.Plain)
    (h : (Json.array vs).render = (Json.array ws).render) : vs.map render = ws.map render := by
  have items (vs : List Json) (hv : ∀ v ∈ vs, v.Plain) :
      ∀ s ∈ vs.map render, Whole s ∧ s ≠ [] := by
    intro s hs
    obtain ⟨v, member, rfl⟩ := List.mem_map.1 hs
    exact ⟨whole_render v, render_ne_nil (hv v member)⟩
  rw [render, render, renderItems_eq, renderItems_eq] at h
  exact separated_inj (items vs hv) (items ws hw) (List.append_cancel_right (List.cons.inj h).2)

/-- Fields with the same texts up to order can be ordered so that they correspond. -/
theorem exists_perm_of_renderFields (h : (renderFields fs).Perm (renderFields gs)) :
    ∃ hs, renderFields fs = renderFields hs ∧ hs.Perm gs := by
  have texts (gs : List (String × Json)) (es : List (String × List Char)) :
      List.Forall₂ (fun e g => e = (g.1, g.2.render)) es gs ↔ es = renderFields gs := by
    rw [renderFields_eq, ← List.forall₂_eq_eq_eq, List.forall₂_map_right_iff]
  obtain ⟨hs, same, perm⟩ := List.perm_comp_forall₂ h ((texts gs _).2 rfl)
  exact ⟨hs, (texts hs _).1 same, perm⟩

theorem alike_of_map_render
    (hv : ∀ v ∈ vs, ∀ w : Json, w.Plain → v.render = w.render → v.Alike w)
    (hw : ∀ w ∈ ws, w.Plain) (h : vs.map render = ws.map render) : List.Forall₂ Alike vs ws := by
  induction vs generalizing ws with
  | nil =>
    rw [List.map_eq_nil_iff.1 h.symm]
    exact .nil
  | cons v vs ih =>
    obtain ⟨w, ws, rfl, first, rest⟩ := List.map_eq_cons_iff.1 h.symm
    obtain ⟨proper, others⟩ := List.forall_mem_cons.1 hw
    exact .cons (hv v (List.mem_cons_self ..) w proper first.symm)
      (ih (fun v hm => hv v (List.mem_cons_of_mem _ hm)) others rest.symm)

theorem map_render_of_alike (hv : ∀ v ∈ vs, ∀ w : Json, v.Alike w → v.render = w.render)
    (h : List.Forall₂ Alike vs ws) : vs.map render = ws.map render := by
  induction h with
  | nil => rfl
  | cons first rest ih =>
    obtain ⟨now, later⟩ := List.forall_mem_cons.1 hv
    rw [List.map_cons, List.map_cons, now _ first, ih later]

theorem alike_of_render (hv : v.Plain) (hw : w.Plain) (h : v.render = w.render) : v.Alike w := by
  have type : v.typeName = w.typeName := by rw [← typeOf_render hv, h, typeOf_render hw]
  induction hv generalizing w with
  | null =>
    obtain rfl : w = .null := by cases w <;> simp [typeName] at type ⊢
    exact .null
  | bool b =>
    obtain ⟨b', rfl⟩ : ∃ b', w = .bool b' := by cases w <;> simp [typeName] at type ⊢
    have same : b = b' := by cases b <;> cases b' <;> simp [render] at h ⊢
    exact same ▸ .bool b
  | int i =>
    obtain ⟨i', rfl⟩ : ∃ i', w = .int i' := by cases w <;> simp [typeName] at type ⊢
    rw [render, render] at h
    exact Int.repr_injective (String.toList_injective h) ▸ .int i
  | text s =>
    obtain ⟨s', rfl⟩ : ∃ s', w = .text s' := by cases w <;> simp [typeName] at type ⊢
    rw [render, render] at h
    have same : string s ++ [] = string s' ++ [] := by simpa using h
    exact (string_append_inj same).1 ▸ .text s
  | @array vs items ih =>
    obtain ⟨ws, rfl⟩ : ∃ ws, w = .array ws := by cases w <;> simp [typeName] at type ⊢
    cases hw with
    | array items' =>
      refine .array (alike_of_map_render (fun v hm w hw same => ?_) items'
        (render_array_eq items items' h))
      exact ih v hm hw same (by rw [← typeOf_render (items v hm), same, typeOf_render hw])
  | @object fs distinct values ih =>
    obtain ⟨gs, rfl⟩ : ∃ gs, w = .object gs := by cases w <;> simp [typeName] at type ⊢
    cases hw with
    | object distinct' values' =>
      obtain ⟨hs, same, perm⟩ := exists_perm_of_renderFields ((render_object_inj distinct).1 h)
      obtain ⟨names, texts⟩ := renderFields_inj.1 same
      refine .object names (alike_of_map_render (fun v hm w hw same => ?_) (fun w hm => ?_) texts)
        perm
      · exact ih v hm hw same (by rw [← typeOf_render (values v hm), same, typeOf_render hw])
      · exact values' w ((perm.map Prod.snd).mem_iff.1 hm)

theorem render_of_alike (hv : v.Plain) (h : v.Alike w) : v.render = w.render := by
  induction hv generalizing w with
  | array items ih =>
    cases h with
    | array alike =>
      rw [render, render, renderItems_eq, renderItems_eq,
        map_render_of_alike (fun v hm w => ih v hm) alike]
  | object distinct values ih =>
    cases h with
    | object names alike reordered =>
      have same := renderFields_inj.2 ⟨names, map_render_of_alike (fun v hm w => ih v hm) alike⟩
      refine (render_object_inj distinct).2 ?_
      rw [same, renderFields_eq, renderFields_eq]
      exact reordered.map _
  | _ => cases h; rfl

/-- Canonical texts tell values apart, and nothing but the order of fields is lost. -/
theorem render_eq_iff (hv : v.Plain) (hw : w.Plain) : v.render = w.render ↔ v.Alike w :=
  ⟨alike_of_render hv hw, render_of_alike hv⟩

end Json

end PluginHost
