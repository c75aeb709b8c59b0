/-! Tables with text keys that keep the order in which the keys came. -/

namespace TextTemplate

abbrev Dict (α : Type) := List (String × α)

namespace Dict
variable {α : Type} {d new : Dict α} {k l : String} {a : α}

def get? (d : Dict α) (k : String) : Option α := d.lookup k

/-- A key that is there keeps its place; a new one goes to the end. -/
def insert (d : Dict α) (k : String) (a : α) : Dict α :=
  match d with
  | [] => [(k, a)]
  | (l, b) :: d => if k = l then (k, a) :: d else (l, b) :: insert d k a

def insertAll (d new : Dict α) : Dict α := new.foldl (fun d (k, a) => insert d k a) d

def erase (d : Dict α) (k : String) : Dict α := d.filter (·.1 ≠ k)

def contains (d : Dict α) (k : String) : Bool := (get? d k).isSome

@[simp] theorem get?_nil : get? ([] : Dict α) k = none := rfl

theorem get?_cons {b : α} : get? ((l, b) :: d) k = if k = l then some b else get? d k := by
  simp only [get?, List.lookup_cons]
  by_cases h : k = l
  · simp [h]
  · simp [h, beq_eq_false_iff_ne.2 h]

theorem get?_insert : get? (insert d k a) l = if l = k then some a else get? d l := by
  induction d with
  | nil => simp [insert, get?_cons]
  | cons e d ih =>
    obtain ⟨m, b⟩ := e
    by_cases hk : k = m
    · subst hk
      by_cases hl : l = k <;> simp [insert, get?_cons, hl]
    · simp only [insert, hk, if_false, get?_cons, ih]
      by_cases hl : l = k
      · subst hl; simp [hk]
      · simp [hl]

/-- The values under a key, in order. -/
def under (d : Dict α) (k : String) : List α := (d.filter (·.1 = k)).map (·.2)

theorem under_cons : under ((l, a) :: d) k = if l = k then a :: under d k else under d k := by
  by_cases h : l = k <;> simp [under, h]

/-- A lookup comes to the first value. -/
theorem get?_eq_head?_under : get? d k = (under d k).head? := by
  induction d with
  | nil => rfl
  | cons e d ih =>
    obtain ⟨l, a⟩ := e
    rw [get?_cons, under_cons, ih]
    by_cases h : k = l
    · simp [h]
    · simp [h, Ne.symm h]

/-- The last of the new values counts, and before them what was there. -/
theorem get?_insertAll : get? (insertAll d new) k = (under new k).getLast?.or (get? d k) := by
  induction new generalizing d with
  | nil => rfl
  | cons e new ih =>
    obtain ⟨l, a⟩ := e
    have hstep : insertAll d ((l, a) :: new) = insertAll (insert d l a) new := rfl
    rw [hstep, ih, get?_insert, under_cons]
    by_cases h : l = k
    · cases hlast : (under new k).getLast? <;> simp [h, List.getLast?_cons, hlast]
    · simp [h, Ne.symm h]

theorem mem_of_mem_under (h : a ∈ under d k) : (k, a) ∈ d := by
  obtain ⟨⟨l, b⟩, hmem, rfl⟩ := List.mem_map.1 h
  obtain ⟨hd, hl⟩ := List.mem_filter.1 hmem
  obtain rfl : l = k := of_decide_eq_true hl
  exact hd

theorem mem_of_get?_insertAll (h : get? (insertAll d new) k = some a) :
    (k, a) ∈ new ∨ get? d k = some a := by
  rw [get?_insertAll, Option.or_eq_some_iff] at h
  rcases h with hlast | ⟨-, hget⟩
  · exact .inl (mem_of_mem_under (List.mem_of_getLast? hlast))
  · exact .inr hget

theorem get?_erase : get? (erase d k) l = if l = k then none else get? d l := by
  induction d with
  | nil => simp [erase]
  | cons e d ih =>
    obtain ⟨m, b⟩ := e
    by_cases hm : m = k
    · subst hm
      have he : erase ((m, b) :: d) m = erase d m := by simp [erase]
      rw [he, ih, get?_cons]
      by_cases hl : l = m <;> simp [hl]
    · have he : erase ((m, b) :: d) k = (m, b) :: erase d k := by simp [erase, hm]
      rw [he, get?_cons, get?_cons, ih]
      by_cases hl : l = m
      · subst hl; simp [hm]
      · simp [hl]

theorem contains_insert : contains (insert d k a) l = (decide (l = k) || contains d l) := by
  by_cases h : l = k <;> simp [contains, get?_insert, h]

theorem contains_erase : contains (erase d k) l = (!decide (l = k) && contains d l) := by
  by_cases h : l = k <;> simp [contains, get?_erase, h]

end Dict
end TextTemplate
