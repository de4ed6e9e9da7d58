/-!
# Tables

Values under texts.  A table keeps its keys in the order in which they were
first put in, and a key put in again takes the new value.
-/

namespace ScriptBundler

/-- Values under texts, at most one for each. -/
structure Table (α : Type) where
  entries : List (String × α)
deriving DecidableEq, Repr

namespace Table

variable {α : Type}

def empty : Table α :=
  ⟨[]⟩

instance : Inhabited (Table α) :=
  ⟨empty⟩

def get? (t : Table α) (key : String) : Option α :=
  t.entries.lookup key

def contains (t : Table α) (key : String) : Bool :=
  (t.get? key).isSome

def replace (key : String) (value : α) (entries : List (String × α)) : List (String × α) :=
  entries.map (fun entry => if entry.1 = key then (key, value) else entry)

def insert (t : Table α) (key : String) (value : α) : Table α :=
  if t.contains key then ⟨replace key value t.entries⟩ else ⟨t.entries ++ [(key, value)]⟩

def size (t : Table α) : Nat :=
  t.entries.length

def isEmpty (t : Table α) : Bool :=
  t.entries.isEmpty

def sorted (t : Table α) : List (String × α) :=
  t.entries.mergeSort (fun a b => decide (a.1 ≤ b.1))

def agrees [DecidableEq α] (a b : Table α) : Bool :=
  a.size == b.size && a.entries.all (fun entry => decide (b.get? entry.1 = some entry.2))

theorem lookup_replace (key : String) (value : α) (entries : List (String × α)) (k : String) :
    (replace key value entries).lookup k =
      if k = key then (entries.lookup key).map (fun _ => value) else entries.lookup k := by
  induction entries with
  | nil => simp [replace]
  | cons entry entries ih =>
      rcases entry with ⟨name, old⟩
      change ((if name = key then (key, value) else (name, old)) ::
        replace key value entries).lookup k = _
      split
      · rename_i hname
        subst hname
        by_cases hk : k = name
        · simp [hk]
        · simp [List.lookup_cons, hk, beq_false_of_ne hk, ih]
      · rename_i hname
        have hkey : (key == name) = false := beq_false_of_ne (Ne.symm hname)
        by_cases hk : k = name
        · simp [hk, hname]
        · simp [List.lookup_cons, beq_false_of_ne hk, hkey, ih]

theorem get?_insert (t : Table α) (key : String) (value : α) (k : String) :
    (t.insert key value).get? k = if k = key then some value else t.get? k := by
  unfold insert contains
  cases hold : t.get? key with
  | none =>
      rw [if_neg (by simp)]
      simp only [get?] at hold ⊢
      rw [List.lookup_append]
      by_cases hk : k = key
      · simp [hk, hold]
      · simp [List.lookup_cons, hk, beq_false_of_ne hk]
  | some old =>
      rw [if_pos (by simp)]
      simp only [get?] at hold ⊢
      rw [lookup_replace, hold]
      rfl

end Table
end ScriptBundler
