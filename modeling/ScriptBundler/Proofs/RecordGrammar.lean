import Mathlib.Data.List.Basic
import Mathlib.Data.List.Forall2
import ScriptBundler.Json.Record
import ScriptBundler.Proofs.SkippedValues

/-!
# The grammar of lists and records

Lists, objects and records are described on top of the ways in which their parts
are written.  Their readers are exact if the readers of the parts are.
-/

namespace ScriptBundler
namespace Json
namespace Form

open Reader

variable {first : Bool} {input rest : List Char} {n : Nat} {key : String}

variable {α β : Type}

/-- What is written, after something has been made of it. -/
def Mapped (g : α → β) (form : Form α) : Form β :=
  fun input b rest => ∃ a, form input a rest ∧ b = g a

theorem Exact.map {reader : Reader α} {form : Form α} (h : Exact reader form) (g : α → β) :
    Exact (reader >>= fun a => pure (g a)) (Mapped g form) := by
  intro input b rest
  rw [bind_eq_ok_iff]
  constructor
  · rintro ⟨a, mid, hread, hpure⟩
    cases hpure
    exact ⟨a, (h _ _ _).mp hread, rfl⟩
  · rintro ⟨a, hform, rfl⟩
    exact ⟨a, rest, (h _ _ _).mpr hform, rfl⟩

theorem ReadsValue.bind {reader : Reader α} (h : ReadsValue reader) {f : α → Reader β}
    (hf : ∀ {a input b rest}, f a input = .ok (b, rest) → rest.length ≤ input.length) :
    ReadsValue (reader >>= f) where
  blanks := fun input => bind_congr_input (h.blanks input)
  starts := by
    intro input p hp
    rcases bind_eq_ok_iff.mp (show (reader >>= f) input = .ok (p.1, p.2) from hp) with
      ⟨a, mid, hread, _⟩
    exact h.starts hread
  shrinks := by
    intro input b rest hb
    rcases bind_eq_ok_iff.mp hb with ⟨a, mid, hread, hmid⟩
    exact Nat.lt_of_le_of_lt (hf hmid) (h.shrinks hread)

theorem ReadsValue.map {reader : Reader α} (h : ReadsValue reader) (g : α → β) :
    ReadsValue (reader >>= fun a => pure (g a)) := by
  refine h.bind ?_
  intro a input b rest hpure
  cases hpure
  exact Nat.le_refl _

theorem readsValue_of_opening {f : Option Char → Reader α}
    (hopen : ∀ {input a rest}, (peek? >>= f) input = .ok (a, rest) →
      ∃ inObject mid, Blanks input (opening inObject :: mid) ∧ rest.length ≤ mid.length) :
    ReadsValue (peek? >>= f) where
  blanks := peek_bind_dropWhile f
  starts := by
    intro input p hp
    rcases hopen (show (peek? >>= f) input = .ok (p.1, p.2) from hp) with
      ⟨inObject, mid, hblanks, _⟩
    refine ⟨_, mid, (blanks_cons_iff (isBlank_opening inObject)).mp hblanks, ?_⟩
    cases inObject <;> decide
  shrinks := by
    intro input a rest h
    rcases hopen h with ⟨inObject, mid, hblanks, hrest⟩
    have hlength := hblanks.length_le
    rw [List.length_cons] at hlength
    omega

/-!
# Lists

The reader of a list goes on as long as there is another item.
-/

/-- What stands before an item: nothing before the first one, and a comma before
the others. -/
inductive Separator : Bool → List Char → List Char → Prop
  | first {input : List Char} : Separator true input input
  | comma {input rest : List Char} (hcomma : Blanks input (',' :: rest)) :
      Separator false input rest

theorem Separator.length_le (h : Separator first input rest) : rest.length ≤ input.length := by
  cases h with
  | first => exact Nat.le_refl _
  | comma hcomma =>
    have hlength := hcomma.length_le
    rw [List.length_cons] at hlength
    omega

inductive Items (form : Form α) : Bool → Form (List α)
  | close {first : Bool} {input rest : List Char} (hclose : Blanks input (']' :: rest)) :
      Items form first input [] rest
  | next {first : Bool} {input a b rest : List Char} {x : α} {xs : List α}
      (hseparator : Separator first input a) (hitem : form a x b)
      (hrest : Items form false b xs rest) : Items form first input (x :: xs) rest

def ListOf (form : Form α) : Form (List α) :=
  fun input xs rest => ∃ mid, Blanks input ('[' :: mid) ∧ Items form true mid xs rest

theorem hasItem_of_close {input rest : List Char} (h : Blanks input (']' :: rest)) (first : Bool) :
    hasItem first input = .ok (false, ']' :: rest) := by
  unfold hasItem
  rw [peek_bind, (blanks_cons_iff (by decide)).mp h]
  rfl

theorem hasItem_of_separator {first : Bool} {input next mid : List Char} {c : Char}
    (hseparator : Separator first input next) (hnext : next.dropWhile isBlank = c :: mid)
    (hc : c ≠ ']') : hasItem first input = .ok (true, c :: mid) := by
  unfold hasItem
  cases hseparator with
  | first =>
    rw [peek_bind, hnext, List.head?_cons]
    generalize hhead : some c = head
    split
    · cases hhead
      exact absurd rfl hc
    · rfl
    · rfl
    · cases hhead
  | comma hcomma =>
    rw [peek_bind, (blanks_cons_iff (by decide)).mp hcomma]
    refine (bind_of_ok (advance_cons _ _)).trans ((peek_bind _ _).trans ?_)
    rw [hnext, List.head?_cons]
    generalize hhead : some c = head
    split
    · cases hhead
      exact absurd rfl hc
    · cases hhead
    · rfl

theorem hasItem_cases {first more : Bool} {input mid : List Char}
    (h : hasItem first input = .ok (more, mid)) :
    (more = false ∧ ∃ rest, mid = ']' :: rest ∧ Blanks input mid) ∨
      (more = true ∧ ∃ next, Separator first input next ∧ next.dropWhile isBlank = mid) := by
  unfold hasItem at h
  rw [peek_bind] at h
  generalize hnext : (input.dropWhile isBlank).head? = next at h
  split at h
  · rcases List.head?_eq_some_iff.mp hnext with ⟨rest, hdrop⟩
    cases h
    exact .inl ⟨rfl, rest, hdrop, blanks_dropWhile input⟩
  · rcases List.head?_eq_some_iff.mp hnext with ⟨rest, hdrop⟩
    cases first with
    | true =>
      cases h
      exact .inr ⟨rfl, input, .first, rfl⟩
    | false =>
      rw [if_neg (by decide), hdrop, bind_of_ok (advance_cons _ _), peek_bind] at h
      generalize (rest.dropWhile isBlank).head? = after at h
      split at h
      · exact absurd h (unexpected_ne_ok _ _)
      · exact absurd h (unexpected_ne_ok _ _)
      · cases h
        exact .inr ⟨rfl, rest, .comma ((blanks_cons_iff (by decide)).mpr hdrop), rfl⟩
  · cases first with
    | true =>
      cases h
      exact .inr ⟨rfl, input, .first, rfl⟩
    | false => exact absurd h (unexpected_ne_ok _ _)
  · exact absurd h (unexpected_ne_ok _ _)

section Lists

variable {item : Reader α} {form : Form α} (hitem : Exact item form) (hvalue : ReadsValue item)
include hitem hvalue

theorem items_of_itemsLoop {done xs : List α} (h : itemsLoop item done n input = .ok (xs, rest)) :
    ∃ ys, Items form done.isEmpty input ys rest ∧ xs = done.reverse ++ ys := by
  induction n generalizing done input with
  | zero =>
    rw [itemsLoop] at h
    exact absurd h (unexpected_ne_ok _ _)
  | succ n ih =>
    rw [itemsLoop] at h
    rcases bind_eq_ok_iff.mp h with ⟨more, mid, hmore, h⟩
    rcases hasItem_cases hmore with ⟨rfl, tail, rfl, hclose⟩ | ⟨rfl, next, hseparator, rfl⟩
    · cases h
      exact ⟨[], .close hclose, (List.append_nil _).symm⟩
    · rcases bind_eq_ok_iff.mp h with ⟨x, after, hx, h⟩
      rw [hvalue.blanks] at hx
      rcases ih h with ⟨ys, hitems, rfl⟩
      exact ⟨x :: ys, .next hseparator ((hitem _ _ _).mp hx) hitems, by simp⟩

theorem Items.itemsLoop_eq {ys : List α} (h : Items form first input ys rest) {done : List α}
    (hfirst : done.isEmpty = first) (hn : input.length < n) :
    itemsLoop item done n input = .ok (done.reverse ++ ys, rest) := by
  induction h generalizing n done with
  | close hclose =>
    rcases n with _ | n
    · omega
    rw [itemsLoop, bind_of_ok (hasItem_of_close hclose _), List.append_nil]
    rfl
  | @next first input a b rest x xs hseparator hx hrest ih =>
    rcases n with _ | n
    · omega
    have hread : item a = .ok (x, b) := (hitem _ _ _).mpr hx
    rcases hvalue.starts hread with ⟨c, mid, hdrop, hc⟩
    have hshorter := hvalue.shrinks hread
    have hlength := hseparator.length_le
    rw [← hvalue.blanks, hdrop] at hread
    rw [itemsLoop, hfirst, bind_of_ok (hasItem_of_separator hseparator hdrop hc)]
    refine (bind_of_ok hread).trans ?_
    rw [ih rfl (by omega)]
    simp

theorem list_exact : Exact (Reader.list item) (ListOf form) := by
  intro input xs rest
  unfold Reader.list
  rw [opening_eq_ok_iff (c := '[') (k := get >>= fun cs => itemsLoop item [] (cs.length + 1))
    (by decide) (fun _ => rfl)]
  · refine exists_congr fun mid => and_congr_right fun _ => ?_
    rw [bind_of_ok (get_apply mid)]
    constructor
    · intro h
      rcases items_of_itemsLoop hitem hvalue h with ⟨ys, hitems, rfl⟩
      exact hitems
    · intro hitems
      exact hitems.itemsLoop_eq hitem hvalue rfl (Nat.lt_succ_self _)
  · intro next hnext
    split
    · exact absurd rfl hnext
    · exact mismatch_ne_ok

theorem Items.length_le {ys : List α} (h : Items form first input ys rest) :
    rest.length ≤ input.length := by
  induction h with
  | close hclose =>
    have hlength := hclose.length_le
    rw [List.length_cons] at hlength
    omega
  | next hseparator hx _ ih =>
    have hlength := hseparator.length_le
    have hshorter := hvalue.shrinks ((hitem _ _ _).mpr hx)
    omega

theorem list_readsValue : ReadsValue (Reader.list item) := by
  refine readsValue_of_opening ?_
  intro input xs rest h
  rcases (list_exact hitem hvalue _ _ _).mp h with ⟨mid, hopen, hitems⟩
  exact ⟨false, mid, hopen, hitems.length_le hitem hvalue⟩

end Lists

/-- Members up to the closing brace.  What a member means, with its colon, is
told by its key and by the members before it. -/
inductive Members (form : α → String → Form α) : Bool → α → Form α
  | close {first : Bool} {x : α} {input rest : List Char} (hclose : Blanks input ('\x7d' :: rest)) :
      Members form first x input x rest
  | next {first : Bool} {x y z : α} {key : String} {input a b c rest : List Char}
      (hseparator : Separator first input a) (hkey : Quoted true a key b)
      (hmember : form x key b y c) (hrest : Members form false y c z rest) :
      Members form first x input z rest

def ObjectOf (form : α → String → Form α) (start : α) : Form α :=
  fun input x rest => ∃ mid, Blanks input ('\x7b' :: mid) ∧ Members form true start mid x rest

theorem key_of_close (h : Blanks input ('\x7d' :: rest)) (first : Bool) :
    key? first input = .ok (none, '\x7d' :: rest) := by
  unfold key?
  rw [peek_bind, (blanks_cons_iff (by decide)).mp h]
  rfl

theorem key_of_separator {input a b : List Char} (hseparator : Separator first input a)
    (hkey : Quoted true a key b) : key? first input = .ok (some key, b) := by
  rcases hkey with ⟨mid, hquote, hbody⟩
  unfold key?
  cases hseparator with
  | first =>
    have hmark : expect '"' ('"' :: mid) = .ok ((), mid) :=
      (expect_eq_ok_iff (by decide)).mpr (.refl _)
    rw [peek_bind, (blanks_cons_iff (by decide)).mp hquote]
    exact (bind_of_ok hmark).trans (bind_of_ok (text_eq_ok_iff.mpr hbody))
  | comma hcomma =>
    rw [peek_bind, (blanks_cons_iff (by decide)).mp hcomma]
    refine (bind_of_ok (advance_cons _ _)).trans ?_
    refine (bind_of_ok ((expect_eq_ok_iff (by decide)).mpr hquote)).trans ?_
    exact bind_of_ok (text_eq_ok_iff.mpr hbody)

theorem key_cases {input mid : List Char} {key : Option String}
    (h : key? first input = .ok (key, mid)) :
    (key = none ∧ ∃ rest, mid = '\x7d' :: rest ∧ Blanks input mid) ∨
      ∃ name next, key = some name ∧ Separator first input next ∧ Quoted true next name mid := by
  have hquoted : ∀ {next : List Char},
      (expect '"' >>= fun _ => text true >>= fun s => pure (some s) : Reader (Option String)) next =
        .ok (key, mid) → ∃ name, key = some name ∧ Quoted true next name mid := by
    intro next h
    rcases bind_eq_ok_iff.mp h with ⟨_, body, hquote, h⟩
    rcases bind_eq_ok_iff.mp h with ⟨name, after, htext, h⟩
    cases h
    exact ⟨name, rfl, body, (expect_eq_ok_iff (by decide)).mp hquote, text_eq_ok_iff.mp htext⟩
  unfold key? at h
  rw [peek_bind] at h
  generalize hnext : (input.dropWhile isBlank).head? = next at h
  split at h
  · rcases List.head?_eq_some_iff.mp hnext with ⟨rest, hdrop⟩
    cases h
    exact .inl ⟨rfl, rest, hdrop, blanks_dropWhile input⟩
  · rename_i c _
    rcases List.head?_eq_some_iff.mp hnext with ⟨rest, hdrop⟩
    cases first with
    | true =>
      rcases hquoted h with ⟨name, hname, body, hquote, hbody⟩
      exact .inr ⟨name, input, hname, .first, body, (blanks_dropWhile input).trans hquote, hbody⟩
    | false =>
      have hnot : (!false) = true := rfl
      dsimp only at h
      rw [if_pos hnot] at h
      by_cases hc : c = ','
      · rw [hc] at hdrop
        rw [if_pos hc, hdrop, bind_of_ok (advance_cons _ _)] at h
        rcases hquoted h with ⟨name, hname, hquote⟩
        exact .inr ⟨name, rest, hname, .comma ((blanks_cons_iff (by decide)).mpr hdrop), hquote⟩
      · rw [if_neg hc] at h
        rcases bind_eq_ok_iff.mp h with ⟨_, _, hfault, _⟩
        exact absurd hfault (unexpected_ne_ok _ _)
  · exact absurd h (unexpected_ne_ok _ _)

section Objects

variable {member : α → String → Reader α} {form : α → String → Form α}
  (hmember : ∀ x key, Exact (member x key) (form x key))
  (hlength : ∀ {x key input y rest}, form x key input y rest → rest.length ≤ input.length)

include hmember in
theorem members_of_membersLoop {x z : α} (h : membersLoop member first x n input = .ok (z, rest)) :
    Members form first x input z rest := by
  induction n generalizing first x input with
  | zero =>
    rw [membersLoop] at h
    exact absurd h (unexpected_ne_ok _ _)
  | succ n ih =>
    rw [membersLoop] at h
    rcases bind_eq_ok_iff.mp h with ⟨key, mid, hkey, h⟩
    rcases key_cases hkey with ⟨rfl, tail, rfl, hclose⟩ | ⟨name, next, rfl, hseparator, hname⟩
    · cases h
      exact .close hclose
    · rcases bind_eq_ok_iff.mp h with ⟨y, after, hy, h⟩
      exact .next hseparator hname ((hmember _ _ _ _ _).mp hy) (ih h)

include hmember hlength in
theorem Members.membersLoop_eq {x z : α} (h : Members form first x input z rest)
    (hn : input.length < n) : membersLoop member first x n input = .ok (z, rest) := by
  induction h generalizing n with
  | close hclose =>
    rcases n with _ | n
    · omega
    rw [membersLoop, bind_of_ok (key_of_close hclose _)]
    rfl
  | next hseparator hkey hform _ ih =>
    rcases n with _ | n
    · omega
    have hshorter := hkey.length_lt
    have hstart := hseparator.length_le
    have hend := hlength hform
    rw [membersLoop, bind_of_ok (key_of_separator hseparator hkey)]
    refine (bind_of_ok ((hmember _ _ _ _ _).mpr hform)).trans ?_
    exact ih (by omega)

include hlength in
theorem Members.length_le {x z : α} (h : Members form first x input z rest) :
    rest.length ≤ input.length := by
  induction h with
  | close hclose =>
    have hclose := hclose.length_le
    rw [List.length_cons] at hclose
    omega
  | next hseparator hkey hform _ ih =>
    have hshorter := hkey.length_lt
    have hstart := hseparator.length_le
    have hend := hlength hform
    omega

include hmember hlength

theorem members_exact (start : α) : Exact (members member start) (Members form true start) := by
  intro input x rest
  unfold members
  rw [bind_of_ok (get_apply input)]
  constructor
  · exact members_of_membersLoop hmember
  · intro h
    exact h.membersLoop_eq hmember hlength (Nat.lt_succ_self _)

theorem object_exact (start : α) : Exact (Reader.object member start) (ObjectOf form start) := by
  intro input x rest
  unfold Reader.object
  rw [opening_eq_ok_iff (c := '\x7b') (k := members member start) (by decide) (fun _ => rfl)]
  · exact exists_congr fun mid => and_congr_right fun _ => members_exact hmember hlength start _ _ _
  · intro next hnext
    split
    · exact absurd rfl hnext
    · exact mismatch_ne_ok

theorem object_readsValue (start : α) : ReadsValue (Reader.object member start) := by
  refine readsValue_of_opening ?_
  intro input x rest h
  rcases (object_exact hmember hlength start _ _ _).mp h with ⟨mid, hopen, hmembers⟩
  exact ⟨true, mid, hopen, hmembers.length_le hlength⟩

end Objects

/-!
# Records

A record is an object with a member for each field, or a list of its fields in
order.
-/

/-- A field, and what a value written for it makes of a record. -/
structure FieldForm (α : Type) where
  name : String
  form : α → Form α

structure RecordForm (α : Type) where
  fields : List (FieldForm α)
  start : α
  /-- Members with other names may stand between the fields. -/
  allowsUnknown : Bool

namespace RecordForm

/-- A member of a record: a field that was not written before, or something that
is passed over. -/
inductive Member (s : RecordForm α) (r : Reading α) (key : String) : Form (Reading α)
  | field {f : FieldForm α} {x : α} {input mid rest : List Char} (hf : f ∈ s.fields)
      (hname : f.name = key) (hnew : key ∉ r.seen) (hcolon : Blanks input (':' :: mid))
      (hvalue : f.form r.value mid x rest) : Member s r key input ⟨x, key :: r.seen⟩ rest
  | unknown {input mid rest : List Char} (hallowed : s.allowsUnknown = true)
      (hother : ∀ f ∈ s.fields, f.name ≠ key) (hcolon : Blanks input (':' :: mid))
      (hvalue : Skipped none mid rest) : Member s r key input r rest

inductive Values : List (FieldForm α) → Bool → α → Form α
  | close {first : Bool} {x : α} {input rest : List Char} (hclose : Blanks input (']' :: rest)) :
      Values [] first x input x rest
  | next {f : FieldForm α} {fields : List (FieldForm α)} {first : Bool} {x y z : α}
      {input a b rest : List Char} (hseparator : Separator first input a)
      (hvalue : f.form x a y b) (hrest : Values fields false y b z rest) :
      Values (f :: fields) first x input z rest

/-- A record: its fields in order, or an object with a member for each. -/
inductive Written (s : RecordForm α) : Form α
  | list {x : α} {input mid rest : List Char} (hopen : Blanks input ('[' :: mid))
      (hvalues : Values s.fields true s.start mid x rest) : Written s input x rest
  | object {r : Reading α} {input mid rest : List Char} (hopen : Blanks input ('\x7b' :: mid))
      (hmembers : Members s.Member true ⟨s.start, []⟩ mid r rest)
      (hall : ∀ f ∈ s.fields, f.name ∈ r.seen) : Written s input r.value rest

structure FieldExact (field : Field α) (f : FieldForm α) : Prop where
  name : field.name = f.name
  exact : ∀ x, Exact (field.read x) (f.form x)
  readsValue : ∀ x, ReadsValue (field.read x)

/-- A format in which no field may be missing, with exact readers for its
fields. -/
structure Describes (s : RecordForm α) (format : RecordFormat α) : Prop where
  start : format.start = s.start
  unknown : format.allowsUnknown = s.allowsUnknown
  missing : format.allowsMissing = false
  distinct : (s.fields.map FieldForm.name).Nodup
  fields : List.Forall₂ FieldExact format.fields s.fields

section Fields

variable {fields : List (Field α)} {forms : List (FieldForm α)}
  (h : List.Forall₂ FieldExact fields forms)
include h

theorem find_of_mem (hdistinct : (forms.map FieldForm.name).Nodup) {f : FieldForm α}
    (hf : f ∈ forms) :
    ∃ field, fields.find? (fun field => field.name == f.name) = some field ∧
      FieldExact field f := by
  induction h with
  | nil => cases hf
  | @cons field form fields forms hfield _ ih =>
    rw [List.map_cons, List.nodup_cons] at hdistinct
    rcases List.mem_cons.mp hf with rfl | hf
    · refine ⟨field, ?_, hfield⟩
      rw [List.find?_cons, hfield.name]
      simp
    · have hne : field.name ≠ f.name := by
        rw [hfield.name]
        intro heq
        exact hdistinct.1 (heq ▸ List.mem_map_of_mem hf)
      rcases ih hdistinct.2 hf with ⟨found, hfound, hexact⟩
      refine ⟨found, ?_, hexact⟩
      rw [List.find?_cons, beq_false_of_ne hne]
      exact hfound

theorem mem_of_find {field : Field α}
    (hfind : fields.find? (fun field => field.name == key) = some field) :
    ∃ f ∈ forms, f.name = key ∧ FieldExact field f := by
  induction h with
  | nil => cases hfind
  | @cons first form fields forms hfield _ ih =>
    rw [List.find?_cons] at hfind
    split at hfind
    · rename_i hname
      cases hfind
      exact ⟨form, List.mem_cons_self, hfield.name.symm.trans (by simpa using hname), hfield⟩
    · rcases ih hfind with ⟨f, hf, hname, hexact⟩
      exact ⟨f, List.mem_cons_of_mem form hf, hname, hexact⟩

theorem find_eq_none_iff :
    fields.find? (fun field => field.name == key) = none ↔ ∀ f ∈ forms, f.name ≠ key := by
  induction h with
  | nil => simp
  | @cons field form fields forms hfield _ ih =>
    rw [List.find?_cons, List.forall_mem_cons, ← ih, ← hfield.name]
    by_cases hname : field.name = key
    · simp [hname]
    · simp [hname, beq_false_of_ne hname]

omit h in
theorem endItems_eq_ok_iff {input rest : List Char} :
    RecordFormat.endItems input = .ok ((), rest) ↔ Blanks input (']' :: rest) := by
  unfold RecordFormat.endItems
  rw [opening_eq_ok_iff (c := ']') (k := pure ()) (by decide) (fun _ => rfl)]
  · constructor
    · rintro ⟨mid, hmid, h⟩
      cases h
      exact hmid
    · exact fun h => ⟨rest, h, rfl⟩
  · intro next hnext
    split
    · exact absurd rfl hnext
    · exact throw_ne_ok _
    · exact throw_ne_ok _

/-- A list in which every field was read is written out to its end.  A field
that is left out was not read before either. -/
theorem values_of_items (hdistinct : (forms.map FieldForm.name).Nodup) {first : Bool}
    {r r' : Reading α} (hnew : ∀ f ∈ forms, f.name ∉ r.seen)
    {input mid rest : List Char} (hitems : RecordFormat.items first r fields input = .ok (r', mid))
    (hall : ∀ f ∈ forms, f.name ∈ r'.seen) (hend : Blanks mid (']' :: rest)) :
    Values forms first r.value input r'.value rest := by
  induction h generalizing first r input with
  | nil =>
    rw [RecordFormat.items] at hitems
    cases hitems
    exact .close hend
  | @cons field f fields forms hfield _ ih =>
    rw [List.map_cons, List.nodup_cons] at hdistinct
    rw [RecordFormat.items] at hitems
    rcases bind_eq_ok_iff.mp hitems with ⟨more, start, hmore, hitems⟩
    rcases hasItem_cases hmore with ⟨rfl, _⟩ | ⟨rfl, next, hseparator, rfl⟩
    · cases hitems
      exact absurd (hall f List.mem_cons_self) (hnew f List.mem_cons_self)
    · rcases bind_eq_ok_iff.mp hitems with ⟨x, after, hx, hitems⟩
      rw [(hfield.readsValue _).blanks] at hx
      have hnext : ∀ f' ∈ forms, f'.name ∉ field.name :: r.seen := by
        intro f' hf' hmem
        rcases List.mem_cons.mp hmem with heq | hseen
        · rw [hfield.name] at heq
          exact hdistinct.1 (heq ▸ List.mem_map_of_mem hf')
        · exact hnew f' (List.mem_cons_of_mem f hf') hseen
      exact .next hseparator ((hfield.exact _ _ _ _).mp hx)
        (ih hdistinct.2 hnext hitems (fun f' hf' => hall f' (List.mem_cons_of_mem f hf')))

theorem Values.items_eq {first : Bool} {x z : α} {input rest : List Char}
    (hvalues : Values forms first x input z rest) (seen : List String) :
    ∃ seen' mid, RecordFormat.items first ⟨x, seen⟩ fields input = .ok (⟨z, seen'⟩, mid) ∧
      (∀ name ∈ seen, name ∈ seen') ∧ (∀ field ∈ fields, field.name ∈ seen') ∧
      Blanks mid (']' :: rest) := by
  induction hvalues generalizing fields seen with
  | @close first x input rest hclose =>
    cases h
    exact ⟨seen, input, rfl, fun _ hname => hname, by simp, hclose⟩
  | @next f forms first x y z input a b rest hseparator hvalue _ ih =>
    cases h with
    | @cons field _ fields _ hfield hfields =>
      have hread := (hfield.exact x a y b).mpr hvalue
      rcases (hfield.readsValue x).starts hread with ⟨c, mid, hdrop, hc⟩
      rw [← (hfield.readsValue x).blanks, hdrop] at hread
      rcases ih hfields (field.name :: seen) with ⟨seen', last, hitems, hkept, hall, hend⟩
      refine ⟨seen', last, ?_, ?_, ?_, hend⟩
      · rw [RecordFormat.items, bind_of_ok (hasItem_of_separator hseparator hdrop hc)]
        exact (bind_of_ok hread).trans hitems
      · intro name hname
        exact hkept name (List.mem_cons_of_mem field.name hname)
      · intro other hother
        rcases List.mem_cons.mp hother with rfl | hother
        · exact hkept _ List.mem_cons_self
        · exact hall other hother

theorem Values.length_le {x z : α} (hvalues : Values forms first x input z rest) :
    rest.length ≤ input.length := by
  induction hvalues generalizing fields with
  | close hclose =>
    have hlength := hclose.length_le
    rw [List.length_cons] at hlength
    omega
  | next hseparator hvalue _ ih =>
    cases h with
    | cons hfield hfields =>
      have hstart := hseparator.length_le
      have hshorter := (hfield.readsValue _).shrinks ((hfield.exact _ _ _ _).mpr hvalue)
      have hend := ih hfields
      omega

end Fields

section Records

variable {s : RecordForm α} {format : RecordFormat α}

section
variable (h : s.Describes format)
include h

theorem Describes.member_exact (r : Reading α) (key : String) :
    Exact (format.member r key) (s.Member r key) := by
  intro input r' rest
  unfold RecordFormat.member
  cases hfind : format.fields.find? (fun field => field.name == key) with
  | some field =>
    rcases mem_of_find h.fields hfind with ⟨f, hf, hname, hexact⟩
    dsimp only
    constructor
    · intro hread
      split at hread
      · cases hread
      · rename_i hnew
        rcases bind_eq_ok_iff.mp hread with ⟨_, mid, hcolon, hread⟩
        rcases bind_eq_ok_iff.mp hread with ⟨x, after, hx, hread⟩
        cases hread
        exact .field hf hname hnew ((expect_eq_ok_iff (by decide)).mp hcolon)
          ((hexact.exact _ _ _ _).mp hx)
    · intro hform
      cases hform with
      | @field f' x _ mid _ hf' hname' hnew hcolon hvalue =>
        rcases find_of_mem h.fields h.distinct hf' with ⟨found, hfound, hfoundExact⟩
        rw [hname', hfind] at hfound
        cases hfound
        rw [if_neg hnew, bind_of_ok ((expect_eq_ok_iff (by decide)).mpr hcolon)]
        exact bind_of_ok ((hfoundExact.exact _ _ _ _).mpr hvalue)
      | unknown _ hother _ _ => exact absurd hname (hother f hf)
  | none =>
    have hother := (find_eq_none_iff h.fields).mp hfind
    dsimp only
    rw [h.unknown]
    constructor
    · intro hread
      split at hread
      · cases hread
      · rename_i hallowed
        rcases bind_eq_ok_iff.mp hread with ⟨_, mid, hcolon, hread⟩
        rcases bind_eq_ok_iff.mp hread with ⟨_, after, hskip, hread⟩
        cases hread
        exact .unknown (by simpa using hallowed) hother ((expect_eq_ok_iff (by decide)).mp hcolon)
          (skip_eq_ok_iff.mp hskip)
    · intro hform
      cases hform with
      | field hf hname _ _ _ => exact absurd hname (hother _ hf)
      | unknown hallowed _ hcolon hvalue =>
        rw [if_neg (by simp [hallowed]), bind_of_ok ((expect_eq_ok_iff (by decide)).mpr hcolon)]
        exact bind_of_ok (skip_eq_ok_iff.mpr hvalue)

theorem Describes.member_length_le {r r' : Reading α} (hmember : s.Member r key input r' rest) :
    rest.length ≤ input.length := by
  cases hmember with
  | field hf _ _ hcolon hvalue =>
    rcases find_of_mem h.fields h.distinct hf with ⟨field, _, hexact⟩
    have hlength := hcolon.length_le
    have hshorter := (hexact.readsValue _).shrinks ((hexact.exact _ _ _ _).mpr hvalue)
    rw [List.length_cons] at hlength
    omega
  | unknown _ _ hcolon hvalue =>
    have hlength := hcolon.length_le
    have hshorter := hvalue.length_lt
    rw [List.length_cons] at hlength
    omega

theorem Describes.complete_iff {r : Reading α} :
    format.isComplete r = true ↔ ∀ f ∈ s.fields, f.name ∈ r.seen := by
  have hnames : format.fields.map Field.name = s.fields.map FieldForm.name := by
    have hfields := h.fields
    generalize format.fields = fields at hfields
    generalize s.fields = forms at hfields
    induction hfields with
    | nil => rfl
    | cons hfield _ ih => rw [List.map_cons, List.map_cons, hfield.name, ih]
  have hfields : (∀ field ∈ format.fields, field.name ∈ r.seen) ↔
      ∀ f ∈ s.fields, f.name ∈ r.seen := by
    rw [← List.forall_mem_map (f := Field.name) (P := (· ∈ r.seen)), hnames, List.forall_mem_map]
  rw [← hfields, RecordFormat.isComplete, h.missing]
  simp

theorem Describes.read_exact : Exact format.read s.Written := by
  intro input x rest
  have hmembers := members_exact h.member_exact h.member_length_le (⟨s.start, []⟩ : Reading α)
  unfold RecordFormat.read
  rw [peek_bind, h.start]
  constructor
  · intro hread
    generalize hnext : (input.dropWhile isBlank).head? = next at hread
    split at hread
    · rcases List.head?_eq_some_iff.mp hnext with ⟨mid, hdrop⟩
      rw [hdrop, bind_of_ok (advance_cons _ _)] at hread
      rcases bind_eq_ok_iff.mp hread with ⟨r, after, hitems, hread⟩
      rcases bind_eq_ok_iff.mp hread with ⟨_, after', hcomplete, hread⟩
      rcases bind_eq_ok_iff.mp hread with ⟨_, last, hend, hread⟩
      cases hread
      unfold RecordFormat.complete at hcomplete
      split at hcomplete
      · rename_i hall
        cases hcomplete
        exact .list ((blanks_cons_iff (by decide)).mpr hdrop)
          (values_of_items h.fields h.distinct (by simp) hitems (h.complete_iff.mp hall)
            (endItems_eq_ok_iff.mp hend))
      · cases hcomplete
    · rcases List.head?_eq_some_iff.mp hnext with ⟨mid, hdrop⟩
      rw [hdrop, bind_of_ok (advance_cons _ _)] at hread
      rcases bind_eq_ok_iff.mp hread with ⟨r, after, hobject, hread⟩
      rcases bind_eq_ok_iff.mp hread with ⟨_, after', hcomplete, hread⟩
      cases hread
      unfold RecordFormat.complete at hcomplete
      split at hcomplete
      · rename_i hall
        cases hcomplete
        exact .object ((blanks_cons_iff (by decide)).mpr hdrop) ((hmembers _ _ _).mp hobject)
          (h.complete_iff.mp hall)
      · cases hcomplete
    · exact absurd hread (mismatch_ne_ok _ _)
  · intro hform
    cases hform with
    | list hopen hvalues =>
      rw [(blanks_cons_iff (by decide)).mp hopen]
      rcases hvalues.items_eq h.fields [] with ⟨seen, last, hitems, _, hall, hend⟩
      refine (bind_of_ok (advance_cons _ _)).trans ((bind_of_ok hitems).trans ?_)
      have hcomplete : format.isComplete ⟨x, seen⟩ = true := by
        rw [RecordFormat.isComplete, h.missing]
        simpa using hall
      rw [RecordFormat.complete, if_pos hcomplete, pure_bind]
      exact bind_of_ok (endItems_eq_ok_iff.mpr hend)
    | object hopen hobject hall =>
      rw [(blanks_cons_iff (by decide)).mp hopen]
      refine (bind_of_ok (advance_cons _ _)).trans
        ((bind_of_ok ((hmembers _ _ _).mpr hobject)).trans ?_)
      rw [RecordFormat.complete, if_pos (h.complete_iff.mpr hall)]
      rfl

theorem Describes.readsValue : ReadsValue format.read := by
  refine readsValue_of_opening ?_
  intro input x rest hread
  cases (h.read_exact _ _ _).mp hread with
  | list hopen hvalues => exact ⟨false, _, hopen, hvalues.length_le h.fields⟩
  | object hopen hmembers _ => exact ⟨true, _, hopen, hmembers.length_le h.member_length_le⟩

end

end Records
end RecordForm

end Form
end Json
end ScriptBundler
