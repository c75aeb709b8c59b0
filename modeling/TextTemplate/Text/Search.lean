/-! Reading a fixed text, and finding the first place at which something can be read. -/

namespace TextTemplate.Text
variable {α : Type} {stop : List Char → Option α} {s w r : List Char} {a : α}

/-- The rest of `s` after `w`, when `s` starts with `w`. -/
def after? : (w s : List Char) → Option (List Char)
  | [], s => some s
  | _ :: _, [] => none
  | c :: w, d :: s => if c = d then after? w s else none

theorem after?_eq_some_iff : after? w s = some r ↔ s = w ++ r := by
  fun_induction after? w s with
  | case1 => simp [eq_comm]
  | case2 => simp
  | case3 w d s ih => simp [ih]
  | case4 c w d s h => simp [Ne.symm h]

/-- The text before the first place at which `stop` succeeds, with what `stop` gives there. -/
def upTo (stop : List Char → Option α) (s : List Char) : Option (List Char × α) :=
  match stop s with
  | some a => some ([], a)
  | none =>
    match s with
    | [] => none
    | c :: cs => (upTo stop cs).map fun (w, a) => (c :: w, a)

theorem upTo_eq_some (h : upTo stop s = some (w, a)) : ∃ t, s = w ++ t ∧ stop t = some a := by
  induction s generalizing w with
  | nil =>
    unfold upTo at h
    split at h
    · cases h; exact ⟨[], rfl, by assumption⟩
    · cases h
  | cons c cs ih =>
    unfold upTo at h
    split at h
    · cases h; exact ⟨c :: cs, rfl, by assumption⟩
    · obtain ⟨⟨v, b⟩, hv, he⟩ := Option.map_eq_some_iff.1 h
      cases he
      obtain ⟨t, rfl, ht⟩ := ih hv
      exact ⟨t, rfl, ht⟩

/-- The text from the first occurrence of `w` on. -/
def fromFirst? (w s : List Char) : Option (List Char) :=
  (upTo (fun t => (after? w t).map fun _ => t) s).map (·.2)

def contains (w s : List Char) : Bool := (fromFirst? w s).isSome

end TextTemplate.Text
