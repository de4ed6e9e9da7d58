import Mathlib.Logic.Relation
import ScriptBundler.Proofs.Offsets
import ScriptBundler.Proofs.Relocation
import ScriptBundler.Proofs.Scopes

/-!
# Spans

Every node of a tree has the span of its tokens.  A phrase takes up the bytes
from the first token that it reads to the last one, so what follows from the
rules of the grammar is that spans lie one in the other, and that a name or a
literal is the text at its span.
-/

namespace ScriptBundler
namespace Grammar

open Grammar.Parser

/-!
# Tokens that matter

A reading takes tokens one by one and literals as a whole.  Every phrase is passed
in such steps.
-/

theorem Stream.token_mem {ts : Stream} [hts : ts.Ended] (i : Nat) : ts.token i ∈ ts.tokens := by
  have hmem : ∀ {i}, i < ts.tokens.size → ts.token i ∈ ts.tokens := by
    intro i hi
    rw [token, Array.getElem?_eq_getElem hi]
    exact Array.getElem_mem hi
  rcases Nat.lt_or_ge i ts.tokens.size with hi | hi
  · exact hmem hi
  · rw [token_of_size_le hi]
    exact hmem (Nat.sub_lt hts.nonempty Nat.one_pos)

/-- Tokens that are taken one by one.  Quotes are taken with the literals that they
open. -/
@[grind =]
def takenAlone : Token.Kind → Bool
  | .endOfInput | .stringQuote | .templateQuote => false
  | _ => true

/-- A reading takes a token that matters, or a whole literal. -/
inductive Reading.Step (rd : Reading) : Nat → Nat → Prop
  | token {i : Nat} : takenAlone (rd.kindAt i) = true → rd.Step i (rd.past i)
  | string {raw : String} {i j : Nat} : rd.StringAt raw i j → rd.Step i j
  | regex {pattern flags : String} {i j : Nat} : rd.RegexAt pattern flags i j → rd.Step i j
  | template {cx : Context} {raw : String} {i j : Nat} : Spells rd (.template cx raw) i j →
      rd.Step i j

def Reading.Passes (rd : Reading) : Nat → Nat → Prop :=
  Relation.ReflTransGen rd.Step

section
variable {rd : Reading} {i j : Nat} {k : Token.Kind}

namespace Reading

theorem Step.past_le [rd.Ended] (h : rd.Step i j) :
    rd.past i ≤ j ∧ rd.kindAt i ≠ .endOfInput := by
  cases h with
  | token hk =>
    refine ⟨Nat.le_refl _, fun hend => ?_⟩
    rw [hend] at hk
    cases hk
  | string h => exact ⟨h.past_le, by rw [h.1]; exact nofun⟩
  | regex h => exact ⟨h.past_le, by rcases h.kindAt_eq with hk | hk <;> rw [hk] <;> exact nofun⟩
  | template h =>
    cases h with
    | template hk hrest => exact ⟨Nat.le_of_lt (hrest.lt rfl), by rw [hk]; exact nofun⟩

@[refl, grind .]
theorem Passes.refl : rd.Passes i i :=
  Relation.ReflTransGen.refl

@[grind →]
theorem Passes.trans {m : Nat} (h : rd.Passes i m) (h' : rd.Passes m j) : rd.Passes i j :=
  Relation.ReflTransGen.trans h h'

theorem Step.passes (h : rd.Step i j) : rd.Passes i j :=
  Relation.ReflTransGen.single h

theorem Passes.le [rd.Ended] (h : rd.Passes i j) : i ≤ j := by
  induction h with
  | refl => exact Nat.le_refl i
  | tail _ hstep ih =>
    exact Nat.le_trans ih (Nat.le_trans (Nat.le_of_lt rd.lt_past) hstep.past_le.1)

theorem Passes.past_le [rd.Ended] (h : rd.Passes i j) (hij : i < j) :
    rd.past i ≤ j ∧ rd.kindAt i ≠ .endOfInput := by
  rcases Relation.ReflTransGen.cases_head h with heq | ⟨m, hstep, hrest⟩
  · exact absurd heq (Nat.ne_of_lt hij)
  · exact ⟨Nat.le_trans hstep.past_le.1 (Passes.le hrest), hstep.past_le.2⟩

theorem Passes.skip_le [rd.Ended] (h : rd.Passes i j) : (rd.skip i).1 ≤ (rd.skip j).1 := by
  rcases Nat.eq_or_lt_of_le h.le with rfl | hij
  · exact Nat.le_refl _
  · have hpast : (rd.skip i).1 + 1 ≤ j := (h.past_le hij).1
    have hle : j < (rd.skip j).1 + 1 := rd.lt_past
    omega

@[grind →]
theorem Takes.passes (h : rd.Takes i j) (hk : takenAlone (rd.kindAt i) = true) : rd.Passes i j :=
  h.1 ▸ (Step.token hk).passes

@[grind →]
theorem Reads.passes (h : rd.Reads k i j) (hk : takenAlone k = true) : rd.Passes i j :=
  h.2.passes (h.1 ▸ hk)

@[grind →]
theorem MayRead.passes {b : Bool} (h : rd.MayRead k b i j) (hk : takenAlone k = true) :
    rd.Passes i j := by
  cases h with
  | yes h => exact h.passes hk
  | no => exact .refl

@[grind →]
theorem MayName.passes {name : Option String} (h : rd.MayName name i j) : rd.Passes i j := by
  cases h with
  | yes h => exact h.1.passes rfl
  | no => exact .refl

@[grind →]
theorem Closes.passes (h : rd.Closes i j) : rd.Passes i j := by
  cases h with
  | mark h => exact h.passes rfl
  | _ => exact .refl

@[grind →]
theorem StaticAt.passes {b : Bool} (h : rd.StaticAt b i j) : rd.Passes i j := by
  cases h with
  | yes h => exact h.passes rfl
  | no => exact .refl

@[grind →]
theorem MethodStartAt.passes {start : MethodStart} (h : rd.MethodStartAt start i j) :
    rd.Passes i j := by
  cases h with
  | named _ h | plain _ _ h => exact h.passes rfl
  | get _ h | set _ h => exact h.1.passes rfl
  | async _ h h' => exact (h.passes rfl).trans (h'.passes rfl)

@[grind →]
theorem StringAt.passes {raw : String} (h : rd.StringAt raw i j) : rd.Passes i j :=
  (Step.string h).passes

@[grind →]
theorem RegexAt.passes {pattern flags : String} (h : rd.RegexAt pattern flags i j) :
    rd.Passes i j :=
  (Step.regex h).passes

end Reading

@[grind →]
theorem takenAlone_of_isName (h : k.isName = true) : takenAlone k = true := by
  cases k <;> first | rfl | cases h

@[grind →]
theorem takenAlone_of_namesVariable (h : namesVariable k = true) : takenAlone k = true := by
  cases k <;> first | rfl | cases h

@[grind →]
theorem takenAlone_of_unaryOp {op : UnaryOp} (h : UnaryOp.ofKind? k = some op) :
    takenAlone k = true := by
  cases k <;> first | rfl | cases h

@[grind →]
theorem takenAlone_of_updateOp {op : UpdateOp} (h : UpdateOp.ofKind? k = some op) :
    takenAlone k = true := by
  cases k <;> first | rfl | cases h

@[grind →]
theorem takenAlone_of_assignOp {op : AssignOp} (h : AssignOp.ofKind? k = some op) :
    takenAlone k = true := by
  cases k <;> first | rfl | cases h

@[grind →]
theorem takenAlone_of_varKind {kind : VarKind} (h : VarKind.ofKind? k = some kind) :
    takenAlone k = true := by
  cases k <;> first | rfl | cases h

@[grind →]
theorem takenAlone_of_infixOp {noIn : Bool} {op : BinaryOp} (h : infixOp? noIn k = some op) :
    takenAlone k = true := by
  cases k <;> first | rfl | cases noIn <;> cases h

/-- Phrases are made of tokens that matter and of literals. -/
theorem Derives.passes {ph : Phrase} (h : Spells rd ph i j) : ph.isRaw = false → rd.Passes i j := by
  induction h with
  | template hk hrest htext hadmits =>
    exact fun _ => (Reading.Step.template (.template hk hrest htext hadmits)).passes
  | templateClose | templateEscape | templateEscapeThen | templateThen | templatePlain =>
    exact nofun
  | _ =>
    simp only [Phrase.isRaw, forall_const] at *
    grind -linarith [Reading.ReadsWord]

theorem Stream.Holds.textBetween_regex {cs : List Char} {pattern flags : String}
    (h : rd.Holds (Lexeme.lexemes cs)) (hr : rd.RegexAt pattern flags i j) :
    rd.textBetween (rd.skip i).1 j = "/" ++ pattern ++ "/" ++ flags := by
  have hrest : ∀ {m k}, rd.RegexRest false m k → rd.FlagsAt flags (k + 1) j →
      rd.textBetween m j = rd.textBetween m k ++ "/" ++ flags := by
    intro m k hrest hflags
    have hlast : rd.textBetween (k + 1) j = flags := by
      cases hflags with
      | some hk => exact h.textBetween_token (by rw [hk]; exact nofun)
      | none => simp [textBetween, String.join]
    rw [← hlast, show "/" = _ from (h.textBetween_mark hrest.closed).symm,
      textBetween_append hrest.le (Nat.le_succ k),
      textBetween_append (Nat.le_succ_of_le hrest.le) hflags.le]
  cases hr with
  | slash hk hpattern hflags | slashEq hk hpattern hflags =>
    have hopen : rd.textBetween (rd.skip i).1 (rd.past i) = _ := h.textBetween_mark hk
    rw [← textBetween_append (j := rd.past i) (Nat.le_succ _)
      (Nat.le_trans hpattern.le (Nat.le_of_succ_le hflags.le)), hopen, hrest hpattern hflags]
    simp only [← String.append_assoc]
    rfl

end
end Grammar

/-!
# Regions of a source

Regions have spans and hold other regions.  The spans of all regions of a phrase lie
in the extent of its tokens.
-/

/-- What takes up a range of a source: a tree, or the part of a `try` that
catches. -/
inductive Region where
  | tree (t : Tree)
  | clause (span : Span) (param : Option Binding) (body : List Stmt)

namespace Region

def span? : Region → Option Span
  | clause sp _ _ => some sp
  | tree (.expr e) => some e.span
  | tree (.func f) => some f.span
  | tree (.param (.plain sp _ _)) | tree (.param (.rest sp _))
  | tree (.member (.method sp _ _ _ _)) | tree (.member (.field sp _ _ _))
  | tree (.binding (.ident sp _)) | tree (.binding (.array sp _))
  | tree (.binding (.object sp _)) => some sp
  | tree (.declarator d) => some d.span
  | tree (.case c) => some c.span
  | tree (.declaration d) => some d.span
  | tree (.stmt s) => some s.span
  | _ => none

def text? : Region → Option String
  | tree (.expr (.ident _ text)) | tree (.expr (.number _ text)) | tree (.expr (.string _ text))
  | tree (.expr (.template _ text)) | tree (.binding (.ident _ text)) => some text
  | tree (.expr (.regex _ pattern flags)) => some ("/" ++ pattern ++ "/" ++ flags)
  | _ => none

/-- The regions in a region.  A name that stands alone in an object pattern is a
binding. -/
def children : Region → List Region
  | clause _ b body => [tree (.handler b), tree (.stmts body)]
  | tree (.stmt (.tryCatch _ body sp b handler)) => [tree (.stmts body), clause sp b handler]
  | tree (.stmt (.tryCatchFinally _ body sp b handler last)) =>
    [tree (.stmts body), clause sp b handler, tree (.stmts last)]
  | tree (.objectElement (.shorthand sp name e)) =>
    [tree (.binding (.ident sp name)), tree (.option e)]
  | tree (.objectElement (.rest sp name)) => [tree (.binding (.ident sp name))]
  | tree t => t.parts.map tree

inductive Holds : Region → Region → Prop
  | self {r : Region} : Holds r r
  | child {r c r' : Region} : c ∈ r.children → Holds c r' → Holds r r'

def InOrder : Region → Prop
  | tree (.stmts (s :: s' :: _)) => s.span.stop ≤ s'.span.start
  | _ => True

end Region

namespace Program

open Grammar

def reading (source : String) : Reading :=
  (stream source).placed

instance {source : String} : (reading source).Ended :=
  (inferInstance : (stream source).Ended)

theorem holds_reading (source : String) :
    (reading source).Holds (Lexeme.lexemes source.toList) :=
  Stream.holds_lex source false

abbrev Reaches (source : String) (i : Nat) : Prop :=
  (reading source).Passes 0 i

end Program

open Grammar Program

/-- A span from the first byte of a token that matters to the last byte of a token. -/
structure Span.Faithful (source : String) (sp : Span) : Prop where
  start_lt_stop : sp.start < sp.stop
  stop_le : sp.stop ≤ source.utf8ByteSize
  first : ∃ i, Reaches source i ∧ (stream source).kindAt i ≠ .endOfInput ∧
    sp.start = ((stream source).nextAt i).span.start
  last : ∃ t ∈ Token.lex source, sp.stop = t.span.stop

namespace Region

/-- All spans of a region are faithful, lie one in the other and have the texts of
their names and literals. -/
inductive Nests (source : String) : Span → Region → Prop
  | node {outer sp : Span} {r : Region} : r.span? = some sp → outer.start ≤ sp.start →
      sp.stop ≤ outer.stop → sp.Faithful source →
      (∀ text, r.text? = some text →
        String.Pos.Raw.extract source ⟨sp.start⟩ ⟨sp.stop⟩ = text) →
      (∀ c ∈ r.children, Nests source sp c) → Nests source outer r
  | group {outer : Span} {r : Region} : r.span? = none → r.InOrder →
      (∀ c ∈ r.children, Nests source outer c) → Nests source outer r

namespace Nests
variable {source : String} {outer sp : Span} {r r' : Region}

theorem widen {outer' : Span} (h : Nests source outer r) (hstart : outer'.start ≤ outer.start)
    (hstop : outer.stop ≤ outer'.stop) : Nests source outer' r := by
  induction h with
  | node hspan hle hle' hfaithful htext hchildren =>
    exact .node hspan (Nat.le_trans hstart hle) (Nat.le_trans hle' hstop) hfaithful htext hchildren
  | group hspan horder _ ih => exact .group hspan horder fun c hc => ih c hc hstart hstop

theorem child {c : Region} (h : Nests source outer r) (hc : c ∈ r.children) :
    Nests source outer c := by
  cases h with
  | node _ hle hle' _ _ hchildren => exact (hchildren c hc).widen hle hle'
  | group _ _ hchildren => exact hchildren c hc

theorem holds (h : Nests source outer r) (hr : r.Holds r') : Nests source outer r' := by
  induction hr with
  | self => exact h
  | child hc _ ih => exact ih (h.child hc)

theorem of_span (h : Nests source outer r) (hsp : r.span? = some sp) :
    (outer.start ≤ sp.start ∧ sp.stop ≤ outer.stop) ∧ sp.Faithful source ∧
      (∀ text, r.text? = some text →
        String.Pos.Raw.extract source ⟨sp.start⟩ ⟨sp.stop⟩ = text) ∧ Nests source sp r := by
  cases h with
  | node hspan hle hle' hfaithful htext hchildren =>
    obtain rfl : _ = sp := Option.some.inj (hspan.symm.trans hsp)
    exact ⟨⟨hle, hle'⟩, hfaithful, htext,
      .node hspan (Nat.le_refl _) (Nat.le_refl _) hfaithful htext hchildren⟩
  | group hspan =>
    rw [hsp] at hspan
    cases hspan

end Nests
end Region

namespace Grammar

/-- The trees of a phrase.  Where a function starts depends on what stands in front
of it. -/
def Phrase.nested : Phrase → List Tree
  | .funcRest f => Tree.parts (.func f)
  | ph => ph.trees

section
variable {source : String} {sp outer : Span} {i j : Nat} {r : Region}

def extent (source : String) (i j : Nat) : Span :=
  ⟨offset source ((stream source).skip i).1, offset source j⟩

theorem eq_extent (hsp : (reading source).spans i j sp) (hpasses : (reading source).Passes i j)
    (hij : i < j) : sp = extent source i j := by
  have hlt : ((stream source).skip i).1 < j := (hpasses.past_le hij).1
  obtain ⟨hstart, hstop⟩ : (stream source).reading.Spans i j sp := hsp
  replace hstop := hstop (Nat.zero_lt_of_lt hij)
  rw [Stream.nextAt, span_token] at hstart
  rw [span_token, Nat.sub_add_cancel (Nat.one_le_of_lt hij), hstart,
    Nat.max_eq_left (offset_mono (Nat.le_of_lt hlt))] at hstop
  cases sp
  exact congrArg₂ Span.mk hstart hstop

theorem offset_lt_offset (hk : (stream source).kindAt i ≠ .endOfInput)
    (hlt : ((stream source).skip i).1 < j) :
    offset source ((stream source).skip i).1 < offset source j := by
  have hholds := Stream.holds_lex source false
  have hlen := hholds.lt_length hk
  have hnonempty := (hholds.ne_end (by rw [hholds.size]; exact Nat.succ_lt_succ hlen)).1
  refine Nat.lt_of_lt_of_le ?_ (offset_mono hlt)
  unfold offset
  rw [← Stream.textBetween_append (Nat.zero_le _) (Nat.le_succ _), hholds.textBetween_token hk,
    String.utf8ByteSize_append]
  exact Nat.lt_add_of_pos_right
    (Nat.pos_of_ne_zero fun h => hnonempty (String.utf8ByteSize_eq_zero_iff.mp h))

theorem faithful_extent (hreach : Reaches source i) (hk : (stream source).kindAt i ≠ .endOfInput)
    (hlt : ((stream source).skip i).1 < j) : (extent source i j).Faithful source := by
  refine ⟨offset_lt_offset hk hlt, offset_le _ _, ⟨i, hreach, hk, ?_⟩,
    (stream source).token (j - 1), (stream source).token_mem _, ?_⟩
  · rw [Stream.nextAt, span_token, extent]
  · rw [span_token, Nat.sub_add_cancel (Nat.one_le_of_lt hlt), extent]

theorem nests_of_eq (hspan : r.span? = some sp) (hsp : sp = extent source i j)
    (hreach : Reaches source i) (hpasses : (reading source).Passes i j) (hij : i < j)
    (htext : ∀ text, r.text? = some text →
      (reading source).textBetween ((reading source).skip i).1 j = text)
    (hchildren : ∀ c ∈ r.children, c.Nests source (extent source i j)) :
    r.Nests source (extent source i j) := by
  subst hsp
  obtain ⟨hlt, hk⟩ : ((stream source).skip i).1 < j ∧ (stream source).kindAt i ≠ .endOfInput :=
    hpasses.past_le hij
  refine .node hspan (Nat.le_refl _) (Nat.le_refl _) (faithful_extent hreach hk hlt) ?_ hchildren
  intro text hmem
  rw [extent, extract_offset (Nat.le_of_lt hlt)]
  exact htext text hmem

theorem nests_of_spans (hspan : r.span? = some sp) (hsp : (reading source).spans i j sp)
    (hreach : Reaches source i) (hpasses : (reading source).Passes i j ∧ i < j)
    (htext : ∀ text, r.text? = some text →
      (reading source).textBetween ((reading source).skip i).1 j = text)
    (hchildren : ∀ c ∈ r.children, c.Nests source (extent source i j)) :
    r.Nests source (extent source i j) :=
  nests_of_eq hspan (eq_extent hsp hpasses.1 hpasses.2) hreach hpasses.1 hpasses.2 htext hchildren

theorem nests_within {i' j' : Nat} (h : r.Nests source (extent source i j))
    (hi : (reading source).Passes i' i) (hj : (reading source).Passes j j') :
    r.Nests source (extent source i' j') :=
  h.widen (offset_mono hi.skip_le) (offset_mono hj.le)

theorem nests_from {i' j' : Nat} (hreach : Reaches source i')
    (h : Reaches source i → r.Nests source (extent source i j))
    (hij : (reading source).Passes i' i ∧ (reading source).Passes j j') :
    r.Nests source (extent source i' j') :=
  nests_within (h (hreach.trans hij.1)) hij.1 hij.2

theorem nests_word {name : String} {m n : Nat} (hspan : r.span? = some sp)
    (htext : r.text? = some name) (hchildren : r.children = [])
    (hsp : (reading source).spans m n sp) (hreach : Reaches source i)
    (hread : (reading source).Takes m n ∧ takenAlone ((reading source).kindAt m) = true ∧
      (reading source).textAt m = name)
    (hij : (reading source).Passes i m ∧ (reading source).Passes n j) :
    r.Nests source (extent source i j) := by
  obtain ⟨htakes, hk, hname⟩ := hread
  refine nests_from hreach (fun hreach => nests_of_spans hspan hsp hreach
    ⟨htakes.passes hk, htakes.lt⟩ (fun text hmem => ?_) (by rw [hchildren]; exact nofun)) hij
  obtain rfl : name = text := Option.some.inj (htext.symm.trans hmem)
  rw [← hname, ← htakes.1]
  refine (holds_reading source).textBetween_token fun hend => ?_
  rw [Stream.kindAt, Stream.nextAt, hend] at hk
  cases hk

theorem nests_node {m n : Nat} (hspan : r.span? = some sp) (htext : r.text? = none)
    (hsp : (reading source).spans m n sp) (hreach : Reaches source i)
    (hpasses : ((reading source).Passes m n ∧ m < n) ∧
      (reading source).Passes i m ∧ (reading source).Passes n j)
    (hchildren : Reaches source m → ∀ c ∈ r.children, c.Nests source (extent source m n)) :
    r.Nests source (extent source i j) :=
  nests_from hreach (fun hreach => nests_of_spans hspan hsp hreach hpasses.1
    (fun text hmem => by rw [htext] at hmem; cases hmem) (hchildren hreach)) hpasses.2

theorem nests_empty (hspan : r.span? = none) (horder : r.InOrder) (hchildren : r.children = []) :
    r.Nests source outer :=
  .group hspan horder (by rw [hchildren]; exact List.forall_mem_nil _)

theorem nests_pair {r' : Region} (h : r.Nests source outer) (h' : r'.Nests source outer) :
    ∀ c ∈ [r, r'], c.Nests source outer :=
  List.forall_mem_cons.2 ⟨h, List.forall_mem_singleton.2 h'⟩

theorem nests_triple {r' r'' : Region} (h : r.Nests source outer) (h' : r'.Nests source outer)
    (h'' : r''.Nests source outer) : ∀ c ∈ [r, r', r''], c.Nests source outer :=
  List.forall_mem_cons.2 ⟨h, nests_pair h' h''⟩

theorem merge_extent {m n : Nat} (hi : (reading source).Passes i m)
    (hj : (reading source).Passes n j) :
    (extent source i n).merge (extent source m j) = extent source i j :=
  congrArg₂ Span.mk (Nat.min_eq_left (offset_mono hi.skip_le))
    (Nat.max_eq_right (offset_mono hj.le))

theorem Derives.expr_span {i j : Nat} {cx : Context} {e : Expr}
    (h : Spells (reading source) (.expr cx e) i j) : e.span = extent source i j := by
  have hpasses := h.passes rfl
  have hlt := h.lt rfl
  cases h with
  | @binary _ sp _ _ left right _ _ _ _ hleft _ hread hop hright _ hjoin =>
    have hop := hread.passes (takenAlone_of_infixOp hop)
    have hmerge : sp = left.span.merge right.span := hjoin
    rw [hleft.expr_span, hright.expr_span,
      merge_extent ((hleft.passes rfl).trans hop) (hop.trans (hright.passes rfl))] at hmerge
    exact hmerge
  | _ => exact eq_extent (by assumption) hpasses hlt
termination_by sizeOf e

theorem Derives.stmt_span {cx : Context} {s : Stmt}
    (h : Spells (reading source) (.stmt cx s) i j) : s.span = extent source i j := by
  have hpasses := h.passes rfl
  have hlt := h.lt rfl
  cases h <;> exact eq_extent (by assumption) hpasses hlt

theorem ItemClass.nests_nil (c : ItemClass) :
    ∀ t ∈ c.trees [], (Region.tree t).Nests source outer := by
  cases c
  case importName | exportName => exact nofun
  all_goals exact List.forall_mem_singleton.2 (nests_empty rfl trivial rfl)

theorem ItemClass.nests_cons (c : ItemClass) {x : c.Item} {xs : List c.Item}
    (hx : ∀ t ∈ c.tree x, (Region.tree t).Nests source outer)
    (hxs : ∀ t ∈ c.trees xs, (Region.tree t).Nests source outer) :
    ∀ t ∈ c.trees (x :: xs), (Region.tree t).Nests source outer := by
  cases c
  case importName | exportName => exact nofun
  all_goals
    exact List.forall_mem_singleton.2
      (.group rfl trivial (nests_pair (hx _ (.head _)) (hxs _ (.head _))))

theorem ItemClass.nests_hole (c : ItemClass) {x : c.Item} (h : c.hole = some x) :
    ∀ t ∈ c.tree x, (Region.tree t).Nests source outer := by
  cases c <;> cases h <;> exact List.forall_mem_singleton.2 (nests_empty rfl trivial rfl)

theorem Derives.nests {ph : Phrase} (h : Spells (reading source) ph i j) :
    Reaches source i → ∀ t ∈ ph.nested, (Region.tree t).Nests source (extent source i j) := by
  have : (reading source).Ended := inferInstance
  induction h
  all_goals intro hreach
  case string h hsp =>
    refine List.forall_mem_singleton.2
      (nests_of_spans rfl hsp hreach ⟨h.passes, h.lt⟩ (fun text htext => ?_) nofun)
    exact Option.some.inj htext ▸ h.2.2.1
  case regex h hsp =>
    refine List.forall_mem_singleton.2
      (nests_of_spans rfl hsp hreach ⟨h.passes, h.lt⟩ (fun text htext => ?_) nofun)
    exact Option.some.inj htext ▸ (holds_reading source).textBetween_regex h
  case quasi h hsp _ =>
    refine List.forall_mem_singleton.2
      (nests_of_spans rfl hsp hreach ⟨h.passes rfl, h.lt rfl⟩ (fun text htext => ?_) nofun)
    cases h with
    | template _ _ hraw => exact Option.some.inj htext ▸ hraw
  case noItems => exact ItemClass.nests_nil _
  case hole hhole hread hitems ih =>
    have hcomma := hread.passes rfl
    exact ItemClass.nests_cons _ (ItemClass.nests_hole _ hhole) fun t ht =>
      nests_within (ih (hreach.trans hcomma) t ht) hcomma .refl
  case moreItems hitem hread hitems ih ih' =>
    have hfirst := (hitem.passes rfl).trans (hread.passes rfl)
    have hafter := (hread.passes rfl).trans (hitems.passes rfl)
    exact ItemClass.nests_cons _ (fun t ht => nests_within (ih hreach t ht) .refl hafter)
      fun t ht => nests_within (ih' (hreach.trans hfirst) t ht) hfirst .refl
  case lastItem hitem hread ih =>
    exact ItemClass.nests_cons _
      (fun t ht => nests_within (ih hreach t ht) .refl (hread.passes rfl)) (ItemClass.nests_nil _)
  case binary hleft hlevel hread hop hright hlevel' hjoin ih ih' =>
    have hafter := (hread.passes (takenAlone_of_infixOp hop)).trans (hright.passes rfl)
    have hbefore := (hleft.passes rfl).trans (hread.passes (takenAlone_of_infixOp hop))
    have hwhole := Derives.binary hleft hlevel hread hop hright hlevel' hjoin
    refine List.forall_mem_singleton.2 (nests_of_eq rfl hwhole.expr_span hreach (hwhole.passes rfl)
      (hwhole.lt rfl) nofun (nests_pair ?_ ?_))
    · exact nests_within (ih hreach _ (.head _)) .refl hafter
    · exact nests_within (ih' (hreach.trans hbefore) _ (.head _)) hbefore .refl
  case moreStmts _ hs hbody ih ih' =>
    have hfirst := hs.passes rfl
    refine List.forall_mem_singleton.2 (.group rfl ?_ (nests_pair ?_ ?_))
    · cases hbody with
      | noStmts => trivial
      | moreStmts _ hs' =>
        change Span.stop _ ≤ Span.start _
        rw [hs.stmt_span, hs'.stmt_span]
        exact offset_mono (Nat.le_of_lt_succ (reading source).lt_past)
    · exact nests_within (ih hreach _ (.head _)) .refl (hbody.passes rfl)
    · exact nests_within (ih' (hreach.trans hfirst) _ (.head _)) hfirst .refl
  case asyncFunc _ hread hrest hsp ih =>
    have hasync := hread.passes rfl
    have hpasses := hrest.passes rfl
    have hlt := hrest.lt rfl
    have hparts : ∀ c ∈ Region.children (.tree (.func _)), c.Nests source _ :=
      List.forall_mem_map.2 (ih (hreach.trans hasync))
    refine List.forall_mem_singleton.2 ?_
    rcases hsp with hsp | hsp
    · exact nests_of_spans rfl hsp hreach ⟨hasync.trans hpasses, Nat.lt_trans hread.lt hlt⟩ nofun
        fun c hc => nests_within (hparts c hc) hasync .refl
    · exact nests_within (nests_of_spans rfl hsp (hreach.trans hasync) ⟨hpasses, hlt⟩ nofun hparts)
        hasync .refl
  case exportDecl hread hd hsp ih =>
    have hexport := hread.passes rfl
    refine List.forall_mem_singleton.2 (nests_of_spans rfl hsp hreach
      ⟨hexport.trans (hd.passes rfl), Nat.lt_trans hread.lt (hd.lt rfl)⟩ nofun
      (List.forall_mem_singleton.2 ?_))
    exact nests_within ((ih (hreach.trans hexport) _ (.head _)).child (.head _)) hexport .refl
  -- Phrases without a tree.
  case imported | importedAs | exportedName | exportedAs | template | templateClose
      | templateEscape | templateEscapeThen | templateThen | templatePlain | substitution
      | clauseDefault | clauseBoth | clauseList | importAll | importNames =>
    exact List.forall_mem_nil _
  all_goals
    simp only [Phrase.nested, Phrase.trees, ItemClass.tree, ItemClass.trees, List.forall_mem_cons,
      List.not_mem_nil, false_imp_iff, implies_true, and_true, imp_and, Tree.parts] at *
    try casesm* _ ∧ _
  -- Words, and nodes and groups without parts.
  case number | ident | asyncIdent | bound =>
    refine nests_word rfl rfl rfl (by assumption) hreach ?_ ⟨.refl, .refl⟩
    grind -linarith [Reading.ReadsWord, Reading.Reads]
  case null | trueWord | falseWord | this | super | empty | breakTo | breakOut | continueTo
      | continueOn | debugger | importOnly | importFrom | exportAll | exportNames | exportFrom =>
    refine nests_node rfl rfl (by assumption) hreach ?_ fun _ => List.forall_mem_nil _
    grind -linarith [Reading.ReadsWord, Phrase.isRaw, Phrase.mayBeEmpty, → Derives.passes]
  case shorthand | keyName | keyString | keyNumber | noValue | noParent | noMembers | noStmts
      | left_out | noCases | noInit =>
    exact nests_empty rfl trivial rfl
  -- Phrases with the trees of the phrases in them.
  case plainArg | arrowParams | skipMember | block | condition | exportedValue =>
    refine nests_from hreach (by assumption) ?_
    grind -linarith [Reading.ReadsWord, Phrase.isRaw, Phrase.mayBeEmpty, → Derives.passes]
  case funcRest | callable | classRest =>
    refine ⟨nests_from hreach (by assumption) ?_, nests_from hreach (by assumption) ?_⟩
    all_goals grind -linarith [Reading.ReadsWord, Phrase.isRaw, Phrase.mayBeEmpty, → Derives.passes]
  case handler =>
    refine ⟨.group rfl trivial (List.forall_mem_singleton.2 (nests_from hreach (by assumption) ?_)),
      nests_from hreach (by assumption) ?_⟩
    all_goals grind -linarith [Reading.ReadsWord, Phrase.isRaw, Phrase.mayBeEmpty, → Derives.passes]
  case bareHandler =>
    refine ⟨nests_empty rfl trivial rfl, nests_from hreach (by assumption) ?_⟩
    grind -linarith [Reading.ReadsWord, Phrase.isRaw, Phrase.mayBeEmpty, → Derives.passes]
  -- Groups of one part, of two and of three.
  case element | spreadProperty | arrayRest | keyComputed | value | parent | given | leftPattern
      | initVars | initExpr =>
    refine .group rfl trivial (List.forall_mem_singleton.2 (nests_from hreach (by assumption) ?_))
    grind -linarith [Reading.ReadsWord, Phrase.isRaw, Phrase.mayBeEmpty, → Derives.passes]
  case other | lastDecl =>
    refine .group rfl trivial (nests_pair (nests_from hreach (by assumption) ?_)
      (nests_empty rfl trivial rfl))
    grind -linarith [Reading.ReadsWord, Phrase.isRaw, Phrase.mayBeEmpty, → Derives.passes]
  case moreOthers | pair | arrayItem | moreMembers | moreDecls | moreCases =>
    refine .group rfl trivial (nests_pair (nests_from hreach (by assumption) ?_)
      (nests_from hreach (by assumption) ?_))
    all_goals grind -linarith [Reading.ReadsWord, Phrase.isRaw, Phrase.mayBeEmpty, → Derives.passes]
  case objectPair =>
    refine .group rfl trivial (nests_triple (nests_from hreach (by assumption) ?_)
      (nests_from hreach (by assumption) ?_) (nests_from hreach (by assumption) ?_))
    all_goals grind -linarith [Reading.ReadsWord, Phrase.isRaw, Phrase.mayBeEmpty, → Derives.passes]
  -- Nodes with one part, with two, with three and with four.
  case array | object | function | paren | tagged | newBare | unary | await | leading | trailing
      | spreadArg | restParam | boundArray | boundObject | labeled | exprStmt | blockStmt | throw
      | exportDefault | exportedFunc =>
    refine nests_node rfl rfl (by assumption) hreach ?_ fun hreach => List.forall_mem_singleton.2
      (nests_from hreach (by assumption) ?_)
    all_goals grind -linarith [Reading.ReadsWord, Phrase.isRaw, Phrase.mayBeEmpty, → Derives.passes]
  case «class» | index | call | new | assign | assignPattern | arrow | arrowBlock | plainParam
      | func | field | decl | switch | tryFinally | doWhile | whileLoop | ifThen
      | exportedClass =>
    refine nests_node rfl rfl (by assumption) hreach ?_ fun hreach => nests_pair
      (nests_from hreach (by assumption) ?_) (nests_from hreach (by assumption) ?_)
    all_goals grind -linarith [Reading.ReadsWord, Phrase.isRaw, Phrase.mayBeEmpty, → Derives.passes]
  case conditional | ifElse | forIn | forOf =>
    refine nests_node rfl rfl (by assumption) hreach ?_ fun hreach => nests_triple
      (nests_from hreach (by assumption) ?_) (nests_from hreach (by assumption) ?_)
      (nests_from hreach (by assumption) ?_)
    all_goals grind -linarith [Reading.ReadsWord, Phrase.isRaw, Phrase.mayBeEmpty, → Derives.passes]
  case forLoop =>
    refine nests_node rfl rfl (by assumption) hreach ?_ fun hreach => List.forall_mem_cons.2
      ⟨nests_from hreach (by assumption) ?_, nests_triple (nests_from hreach (by assumption) ?_)
        (nests_from hreach (by assumption) ?_) (nests_from hreach (by assumption) ?_)⟩
    all_goals grind -linarith [Reading.ReadsWord, Phrase.isRaw, Phrase.mayBeEmpty, → Derives.passes]
  -- Nodes with a group or a node in between.
  case yieldNothing | retNothing =>
    refine nests_node rfl rfl (by assumption) hreach ?_ fun _ => List.forall_mem_singleton.2
      (nests_empty rfl trivial rfl)
    grind -linarith [Reading.ReadsWord, Phrase.isRaw, Phrase.mayBeEmpty, → Derives.passes]
  case delegate | yieldValue | ret =>
    refine nests_node rfl rfl (by assumption) hreach ?_ fun hreach => List.forall_mem_singleton.2
      (.group rfl trivial (List.forall_mem_singleton.2 (nests_from hreach (by assumption) ?_)))
    all_goals grind -linarith [Reading.ReadsWord, Phrase.isRaw, Phrase.mayBeEmpty, → Derives.passes]
  case sequence =>
    refine nests_node rfl rfl (by assumption) hreach ?_ fun hreach => List.forall_mem_singleton.2
      (.group rfl trivial (nests_pair (nests_from hreach (by assumption) ?_)
        (nests_from hreach (by assumption) ?_)))
    all_goals grind -linarith [Reading.ReadsWord, Phrase.isRaw, Phrase.mayBeEmpty, → Derives.passes]
  case testCase =>
    refine nests_node rfl rfl (by assumption) hreach ?_ fun hreach => nests_pair
      (.group rfl trivial (List.forall_mem_singleton.2 (nests_from hreach (by assumption) ?_)))
      (nests_from hreach (by assumption) ?_)
    all_goals grind -linarith [Reading.ReadsWord, Phrase.isRaw, Phrase.mayBeEmpty, → Derives.passes]
  case defaultCase =>
    refine nests_node rfl rfl (by assumption) hreach ?_ fun hreach => nests_pair
      (nests_empty rfl trivial rfl) (nests_from hreach (by assumption) ?_)
    all_goals grind -linarith [Reading.ReadsWord, Phrase.isRaw, Phrase.mayBeEmpty, → Derives.passes]
  case vars | functionDecl =>
    refine nests_node rfl rfl (by assumption) hreach ?_ fun hreach => List.forall_mem_singleton.2
      (nests_node rfl rfl (by assumption) hreach ?_ fun hreach => List.forall_mem_singleton.2
        (nests_from hreach (by assumption) ?_))
    all_goals grind -linarith [Reading.ReadsWord, Phrase.isRaw, Phrase.mayBeEmpty, → Derives.passes]
  case classDecl =>
    refine nests_node rfl rfl (by assumption) hreach ?_ fun hreach => List.forall_mem_singleton.2
      (nests_node rfl rfl (by assumption) hreach ?_ fun hreach => nests_pair
        (nests_from hreach (by assumption) ?_) (nests_from hreach (by assumption) ?_))
    all_goals grind -linarith [Reading.ReadsWord, Phrase.isRaw, Phrase.mayBeEmpty, → Derives.passes]
  case method | tryCatch =>
    refine nests_node rfl rfl (by assumption) hreach ?_ fun hreach => nests_pair
      (nests_from hreach (by assumption) ?_)
      (nests_node rfl rfl (by assumption) hreach ?_ fun hreach => nests_pair
        (nests_from hreach (by assumption) ?_) (nests_from hreach (by assumption) ?_))
    all_goals grind -linarith [Reading.ReadsWord, Phrase.isRaw, Phrase.mayBeEmpty, → Derives.passes]
  case methodProperty =>
    refine .group rfl trivial (nests_pair (nests_from hreach (by assumption) ?_)
      (nests_node rfl rfl (by assumption) hreach ?_ fun hreach => nests_pair
        (nests_from hreach (by assumption) ?_) (nests_from hreach (by assumption) ?_)))
    all_goals grind -linarith [Reading.ReadsWord, Phrase.isRaw, Phrase.mayBeEmpty, → Derives.passes]
  case tryCatchFinally =>
    refine nests_node rfl rfl (by assumption) hreach ?_ fun hreach => nests_triple
      (nests_from hreach (by assumption) ?_)
      (nests_node rfl rfl (by assumption) hreach ?_ fun hreach => nests_pair
        (nests_from hreach (by assumption) ?_) (nests_from hreach (by assumption) ?_))
      (nests_from hreach (by assumption) ?_)
    all_goals grind -linarith [Reading.ReadsWord, Phrase.isRaw, Phrase.mayBeEmpty, → Derives.passes]
  -- Names behind a dot, in patterns and in the heads of arrows and loops.
  case dot =>
    refine nests_node rfl rfl (by assumption) hreach ?_ fun hreach => nests_pair
      (nests_from hreach (by assumption) ?_)
      (nests_word rfl rfl rfl (by assumption) hreach ?_ ?_)
    all_goals grind -linarith [Reading.ReadsWord, Reading.Reads, Phrase.isRaw,
      Phrase.mayBeEmpty, → Derives.passes]
  case objectRest =>
    refine .group rfl trivial (List.forall_mem_singleton.2
      (nests_word rfl rfl rfl (by assumption) hreach ?_ ?_))
    all_goals grind -linarith [Reading.ReadsWord, Reading.Reads]
  case objectShort =>
    refine .group rfl trivial (nests_pair (nests_word rfl rfl rfl (by assumption) hreach ?_ ?_)
      (nests_from hreach (by assumption) ?_))
    all_goals grind -linarith [Reading.ReadsWord, Reading.Reads, Phrase.isRaw,
      Phrase.mayBeEmpty, → Derives.passes]
  case arrowName =>
    refine .group rfl trivial (nests_pair
      (nests_node rfl rfl (by assumption) hreach ?_ fun hreach => nests_pair
        (nests_word rfl rfl rfl (by assumption) hreach ?_ ?_) (nests_empty rfl trivial rfl))
      (nests_empty rfl trivial rfl))
    all_goals grind -linarith [Reading.ReadsWord, Reading.Reads]
  case leftVars =>
    refine .group rfl trivial (List.forall_mem_singleton.2 (.group rfl trivial (nests_pair
      (nests_node rfl rfl (by assumption) hreach ?_ fun hreach => nests_pair
        (nests_from hreach (by assumption) ?_) (nests_empty rfl trivial rfl))
      (nests_empty rfl trivial rfl))))
    all_goals grind -linarith [Reading.ReadsWord, Phrase.isRaw, Phrase.mayBeEmpty, → Derives.passes]

end
end Grammar

def Stmt.value? : Stmt → Option Expr
  | .expr _ e => some e
  | _ => none

theorem Stmt.eq_expr_of_value? {s : Stmt} {e : Expr} (h : s.value? = some e) :
    ∃ sp, s = .expr sp e := by
  cases s with
  | expr sp e' => exact ⟨sp, by rw [Option.some.inj h]⟩
  | _ => cases h

/-- In every program that parses, all spans are faithful and lie in those of the
nodes around them, names and literals stand at their spans, and statements follow
each other. -/
theorem Program.ofSource_spans {source : String} {p : Program} (h : ofSource source = .ok p) :
    (∀ r sp, Region.Holds (.tree (.stmts p)) r → r.span? = some sp →
      sp.Faithful source ∧
      (∀ text, r.text? = some text →
        String.Pos.Raw.extract source ⟨sp.start⟩ ⟨sp.stop⟩ = text) ∧
      ∀ r' sp', r.Holds r' → r'.span? = some sp' → sp.start ≤ sp'.start ∧ sp'.stop ≤ sp.stop) ∧
    ∀ s s' body, Region.Holds (.tree (.stmts p)) (.tree (.stmts (s :: s' :: body))) →
      s.span.stop ≤ s'.span.start := by
  obtain ⟨j, hspells, -⟩ := spells_of_ofSource h
  have hspells : Spells (reading source) (.stmts .top [] p) 0 j := hspells
  have hall : (Region.tree (.stmts p)).Nests source (extent source 0 j) :=
    hspells.nests .refl _ (.head _)
  refine ⟨fun r sp hr hsp => ?_, fun s s' body hr => ?_⟩
  · obtain ⟨-, hfaithful, htext, hown⟩ := (hall.holds hr).of_span hsp
    exact ⟨hfaithful, htext, fun r' sp' hr' hsp' => ((hown.holds hr').of_span hsp').1⟩
  · cases hall.holds hr with
    | node hspan => cases hspan
    | group _ horder => exact horder

/-- A character of two bytes stands in front of a literal. -/
theorem Program.ofSource_spans_wide :
    ∃ p s e, ofSource "'é'; /b/g" = .ok p ∧ p = [s, .expr ⟨6, 10⟩ e] ∧
      e.span.Faithful "'é'; /b/g" ∧ s.span.stop ≤ 6 ∧
      String.Pos.Raw.extract "'é'; /b/g" ⟨e.span.start⟩ ⟨e.span.stop⟩ = "/b/g" := by
  have hrun : (ofSource "'é'; /b/g").toOption.any (fun p => p.length == 2 &&
      (p[1]?.bind Stmt.value?).any fun e => p[1]?.map Stmt.span == some ⟨6, 10⟩ &&
        Region.text? (.tree (.expr e)) == some "/b/g") = true := by decide +kernel
  obtain ⟨p, hp, hcheck⟩ := exists_ok_of_any hrun
  rw [Bool.and_eq_true, beq_iff_eq, Option.any_eq_true] at hcheck
  obtain ⟨hlength, e, hvalue, hcheck⟩ := hcheck
  obtain ⟨s, t, rfl⟩ := List.length_eq_two.mp hlength
  obtain ⟨sp, rfl⟩ := Stmt.eq_expr_of_value? hvalue
  rw [Bool.and_eq_true, beq_iff_eq, beq_iff_eq] at hcheck
  obtain ⟨hspan, htext⟩ := hcheck
  obtain rfl : sp = ⟨6, 10⟩ := Option.some.inj hspan
  have hspans := ofSource_spans hp
  have hliteral := hspans.1 (.tree (.expr e)) e.span
    (.child (.tail _ (.head _)) (.child (.head _) (.child (.head _) .self))) rfl
  exact ⟨_, s, e, hp, rfl, hliteral.1, hspans.2 _ _ _ .self, hliteral.2.1 _ htext⟩

end ScriptBundler
