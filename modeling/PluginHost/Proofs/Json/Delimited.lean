import Mathlib
import PluginHost.Fingerprint

/-!
Where the canonical text of a JSON value ends. Brackets and quotes in it are matched, so a comma
after it can be told from the commas in it.
-/
namespace PluginHost.Json

/-- How far a reader of a text is: how many brackets are open, and whether it is in a string. -/
inductive Reading where
  | plain (depth : Nat)
  | quoted (depth : Nat)
  | escaped (depth : Nat)
deriving DecidableEq

def Reading.next : Reading → Char → Reading
  | .plain d, '"' => .quoted d
  | .plain d, '[' => .plain (d + 1)
  | .plain d, '\x7b' => .plain (d + 1)
  | .plain d, ']' => .plain (d - 1)
  | .plain d, '\x7d' => .plain (d - 1)
  | .plain d, _ => .plain d
  | .quoted d, '"' => .plain d
  | .quoted d, '\\' => .escaped d
  | .quoted d, _ => .quoted d
  | .escaped d, _ => .quoted d

/-- The rest of a text from the first comma on that stands in no bracket and in no string. -/
def past (r : Reading) : List Char → List Char
  | [] => []
  | c :: cs => if r = .plain 0 ∧ c = ',' then c :: cs else past (r.next c) cs

/-- A text that a reader comes out of as it went in, without a comma to stop at. -/
structure Whole (s : List Char) : Prop where
  past_append : ∀ d t, past (.plain d) (s ++ t) = past (.plain d) t

/-- A character that stands for itself wherever it stands. -/
def Ordinary (c : Char) : Prop := c ∉ ['"', '[', ']', '\x7b', '\x7d', ',', '\\']

instance (c : Char) : Decidable (Ordinary c) := inferInstanceAs (Decidable (c ∉ _))

theorem Ordinary.next {c : Char} (hc : Ordinary c) (d : Nat) :
    (Reading.plain d).next c = .plain d ∧ (Reading.quoted d).next c = .quoted d := by
  simp only [Ordinary, List.mem_cons, List.not_mem_nil, not_or, or_false] at hc
  unfold Reading.next
  constructor <;> split <;> simp_all

theorem ordinary_digitChar (n : Nat) : Ordinary n.digitChar := by
  by_cases hn : n < 16
  · interval_cases n <;> decide
  · have : n.digitChar = '*' := by
      unfold Nat.digitChar
      repeat' rw [if_neg (by omega)]
    rw [this]
    decide

theorem ordinary_of_mem_toDigits {b n : Nat} {c : Char} (hb : 1 < b) (hc : c ∈ Nat.toDigits b n) :
    Ordinary c := by
  induction n using Nat.strongRecOn with
  | _ n ih =>
    rw [Nat.toDigits_eq_if hb] at hc
    split at hc
    · obtain rfl := List.mem_singleton.1 hc
      exact ordinary_digitChar n
    · rename_i hn
      obtain hc | hc := List.mem_append.1 hc
      · exact ih (n / b) (Nat.div_lt_self (by omega) hb) hc
      · obtain rfl := List.mem_singleton.1 hc
        exact ordinary_digitChar _

namespace Whole

variable {s t : List Char} {ss : List (List Char)}

theorem append (hs : Whole s) (ht : Whole t) : Whole (s ++ t) :=
  ⟨fun d u => by rw [List.append_assoc, hs.past_append, ht.past_append]⟩

theorem of_ordinary (hs : ∀ c ∈ s, Ordinary c) : Whole s := by
  refine ⟨fun d t => ?_⟩
  induction s with
  | nil => rfl
  | cons c cs ih =>
    obtain ⟨hc, hcs⟩ := List.forall_mem_cons.1 hs
    have apart : c ≠ ',' := by
      rintro rfl
      exact absurd hc (by decide)
    rw [List.cons_append, past, if_neg (by simp [apart]), (hc.next d).1, ih hcs]

theorem past_comma (hs : Whole s) : past (.plain 0) (s ++ ',' :: t) = ',' :: t := by
  rw [hs.past_append, past, if_pos ⟨rfl, rfl⟩]

/-- Of two texts that agree, what stands before the first comma agrees, and what stands after it. -/
theorem append_inj {s' t' : List Char} (hs : Whole s) (hs' : Whole s')
    (h : s ++ ',' :: t = s' ++ ',' :: t') : s = s' ∧ t = t' := by
  have rest := congrArg (past (.plain 0)) h
  rw [hs.past_comma, hs'.past_comma] at rest
  obtain rfl := (List.cons.inj rest).2
  exact ⟨List.append_cancel_right h, rfl⟩

/-- Commas in a bracket are passed over. -/
theorem past_separated (hs : ∀ s ∈ ss, Whole s) (d : Nat) :
    past (.plain (d + 1)) (separated ss ++ t) = past (.plain (d + 1)) t := by
  induction ss with
  | nil => rfl
  | cons s rest ih =>
    obtain ⟨whole, others⟩ := List.forall_mem_cons.1 hs
    cases rest with
    | nil => exact whole.past_append _ _
    | cons r rs =>
      have := ih others
      simp only [separated, List.append_assoc, List.cons_append]
      rw [whole.past_append]
      simpa [past, Reading.next] using this

theorem bracketed (hs : ∀ s ∈ ss, Whole s) : Whole ('[' :: separated ss ++ [']']) := by
  refine ⟨fun d t => ?_⟩
  have := past_separated (t := ']' :: t) hs d
  simpa [past, Reading.next] using this

theorem braced (hs : ∀ s ∈ ss, Whole s) : Whole ('\x7b' :: separated ss ++ ['\x7d']) := by
  refine ⟨fun d t => ?_⟩
  have := past_separated (t := '\x7d' :: t) hs d
  simpa [past, Reading.next] using this

end Whole

theorem past_quoted {s t : List Char} (hs : ∀ c ∈ s, Ordinary c) (d : Nat) :
    past (.quoted d) (s ++ t) = past (.quoted d) t := by
  induction s with
  | nil => rfl
  | cons c cs ih =>
    obtain ⟨hc, hcs⟩ := List.forall_mem_cons.1 hs
    rw [List.cons_append, past, if_neg (by simp), (hc.next d).2, ih hcs]

theorem ordinary_of_mem_hex {width n : Nat} {c : Char} (hc : c ∈ Text.hex width n) :
    Ordinary c := by
  obtain hc | hc := List.mem_append.1 hc
  · obtain rfl := List.eq_of_mem_replicate hc
    decide
  · exact ordinary_of_mem_toDigits (by decide) hc

theorem past_unit16 {n d : Nat} {t : List Char} :
    past (.quoted d) (unit16 n ++ t) = past (.quoted d) t := by
  have digits : ∀ c ∈ Text.hex 4 n, Ordinary c := fun c hc => ordinary_of_mem_hex hc
  simpa [unit16, past, Reading.next] using past_quoted digits d

theorem past_escape {c : Char} {d : Nat} {t : List Char} :
    past (.quoted d) (escape c ++ t) = past (.quoted d) t := by
  unfold escape
  split_ifs
  case neg =>
    dsimp only
    rw [List.append_assoc, past_unit16, past_unit16]
  all_goals first
    | exact past_unit16
    | simp [past, Reading.next]

theorem whole_string (s : String) : Whole (string s) := by
  refine ⟨fun d t => ?_⟩
  have inner (cs : List Char) :
      past (.quoted d) (cs.flatMap escape ++ '"' :: t) = past (.plain d) t := by
    induction cs with
    | nil => simp [past, Reading.next]
    | cons c cs ih => rw [List.flatMap_cons, List.append_assoc, past_escape, ih]
  simpa [string, past, Reading.next] using inner s.toList

theorem ordinary_digits (n : Nat) : ∀ c ∈ Nat.toDigits 10 n, Ordinary c :=
  fun _ => ordinary_of_mem_toDigits (by decide)

theorem ordinary_zeros (n : Nat) : ∀ c ∈ List.replicate n '0', Ordinary c := by
  intro c hc
  obtain rfl := List.eq_of_mem_replicate hc
  decide

theorem ordinary_repr (n : Nat) : ∀ c ∈ n.repr.toList, Ordinary c := by
  rw [Nat.repr, String.toList_ofList]
  exact ordinary_digits n

theorem whole_int (i : Int) : Whole (toString i).toList := by
  refine .of_ordinary ?_
  cases i with
  | ofNat n => exact ordinary_repr n
  | negSucc n =>
    rw [Int.toString_eq_repr, Int.repr, String.toList_append, List.forall_mem_append]
    exact ⟨by simp [Ordinary], ordinary_repr _⟩

theorem ordinary_layout (n : Nat) (e : Int) : ∀ c ∈ Decimal.layout n e, Ordinary c := by
  have digits := ordinary_digits n
  unfold Decimal.layout
  dsimp only
  split
  · split
    · simp only [List.forall_mem_append]
      exact ⟨⟨digits, ordinary_zeros _⟩, by simp [Ordinary]⟩
    · split
      · simp only [List.forall_mem_append, List.forall_mem_cons]
        exact ⟨fun c hc => digits c (List.mem_of_mem_take hc), by decide,
          fun c hc => digits c (List.mem_of_mem_drop hc)⟩
      · simp only [List.forall_mem_append, List.forall_mem_cons, List.cons_append]
        exact ⟨by decide, by decide, ordinary_zeros _, digits⟩
  · simp only [List.forall_mem_append, List.forall_mem_cons]
    refine ⟨⟨⟨fun c hc => digits c (List.mem_of_mem_take hc), ?_⟩, by decide, ?_,
      ordinary_zeros _⟩, ordinary_digits _⟩
    · split
      · simp
      · exact List.forall_mem_cons.2 ⟨by decide, fun c hc => digits c (List.mem_of_mem_drop hc)⟩
    · split <;> decide

theorem whole_float (x : Float) : Whole (Decimal.text x).toList := by
  refine .of_ordinary ?_
  have sign : ∀ c ∈ (if x.toBits >>> 63 = 1 then "-" else "").toList, Ordinary c := by
    split <;> simp [Ordinary]
  unfold Decimal.text
  dsimp only
  split
  · simp [Ordinary]
  · split
    · rw [String.toList_append, List.forall_mem_append]
      exact ⟨sign, by simp [Ordinary]⟩
    · split
      · rw [String.toList_append, List.forall_mem_append]
        exact ⟨sign, by simp [Ordinary]⟩
      · rw [String.toList_append, List.forall_mem_append, String.toList_ofList]
        exact ⟨sign, ordinary_layout _ _⟩

mutual

/-- A reader comes out of the text of a value as it went in. -/
theorem whole_render : ∀ v : Json, Whole v.render
  | .null => by rw [render]; exact .of_ordinary (by simp [Ordinary])
  | .bool true => by rw [render]; exact .of_ordinary (by simp [Ordinary])
  | .bool false => by rw [render]; exact .of_ordinary (by simp [Ordinary])
  | .int i => by rw [render]; exact whole_int i
  | .float x => by rw [render]; exact whole_float x
  | .text s => by rw [render]; exact whole_string s
  | .array items => by rw [render]; exact .bracketed (whole_renderItems items)
  | .object fields => by
    rw [render]
    refine .braced fun row hr => ?_
    obtain ⟨f, hf, rfl⟩ := List.mem_map.1 hr
    have value := whole_renderFields fields f ((perm_inOrder ..).mem_iff.1 hf)
    have colon : Whole [':', ' '] := .of_ordinary (by simp [Ordinary])
    exact (whole_string f.1).append (colon.append value)

theorem whole_renderItems : ∀ (vs : List Json), ∀ s ∈ renderItems vs, Whole s
  | [] => by simp [renderItems]
  | v :: vs => by
    rw [renderItems]
    exact List.forall_mem_cons.2 ⟨whole_render v, whole_renderItems vs⟩

theorem whole_renderFields :
    ∀ (fs : List (String × Json)), ∀ f ∈ renderFields fs, Whole f.2
  | [] => by simp [renderFields]
  | (name, v) :: fs => by
    rw [renderFields]
    exact List.forall_mem_cons.2 ⟨whole_render v, whole_renderFields fs⟩

end

/-- Arrays with the same text agree in their first item and in the rest. -/
theorem render_array_inj {v w v' w' : Json} {vs vs' : List Json}
    (h : (Json.array (v :: w :: vs)).render = (Json.array (v' :: w' :: vs')).render) :
    v.render = v'.render ∧ (Json.array (w :: vs)).render = (Json.array (w' :: vs')).render := by
  simp only [render, renderItems, separated, List.cons_append, List.append_assoc, List.cons.injEq,
    true_and] at h
  obtain ⟨first, rest⟩ := (whole_render v).append_inj (whole_render v') h
  refine ⟨first, ?_⟩
  simp only [render, renderItems, List.cons_append]
  rw [(List.cons.inj rest).2]

end PluginHost.Json

namespace PluginHost

/-- Requests for different engines never share a fingerprint. -/
theorem CompileRequest.engine_of_fingerprint {r s : CompileRequest}
    (h : r.fingerprint = s.fingerprint) : r.engine = s.engine := by
  obtain ⟨-, rest⟩ := Json.render_array_inj (String.ofList_injective h)
  obtain ⟨engines, -⟩ := Json.render_array_inj rest
  rw [Json.render, Json.render] at engines
  exact Int.repr_injective (String.toList_injective engines)

end PluginHost
