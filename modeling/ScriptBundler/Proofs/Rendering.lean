import Mathlib.Data.List.Basic
import ScriptBundler.Module.Source

/-!
# Printing statement by statement

Whether a blank is put in front of a piece depends on the last character in front
of it.  Every statement ends in a semicolon or a closing brace, and no piece
needs a blank behind these, so the text of a statement does not depend on what
stands in front of it.  The code of a module is then known up to the texts of
its statements.
-/

namespace ScriptBundler

/-!
# The last character

A blank is put between two pieces because of the last character in front of it.
-/

namespace Piece

theorem renderAfter_append (last : Option Char) (ps qs : List Piece) :
    renderAfter last (ps ++ qs) =
      renderAfter last ps ++ renderAfter ((renderAfter last ps).getLast?.or last) qs := by
  induction ps generalizing last with
  | nil => rfl
  | cons p ps ih =>
    rw [List.cons_append, renderAfter, renderAfter, ih, List.append_assoc, List.getLast?_append,
      Option.or_assoc]

def isSign (c : Char) : Bool :=
  !isWordChar c && c != '+' && c != '-'

theorem not_merges_of_isSign {c : Char} (h : isSign c = true) (d : Char) :
    merges c d = false ∧ merges d c = false := by
  simp only [isSign, Bool.and_eq_true, Bool.not_eq_eq_eq_not, Bool.not_true, bne_iff_ne] at h
  simp [merges, h.1.1, h.1.2, h.2]

theorem needsBlank_of_isSign {last : Option Char} (h : ∀ c ∈ last, isSign c = true)
    (text : List Char) : needsBlank last text = false := by
  cases last with
  | none => rfl
  | some c =>
    cases text with
    | nil => rfl
    | cons d text => exact (not_merges_of_isSign (h c rfl) d).1

theorem renderAfter_of_isSign {last : Option Char} (h : ∀ c ∈ last, isSign c = true)
    (ps : List Piece) : renderAfter last ps = renderAfter none ps := by
  induction ps generalizing last with
  | nil => rfl
  | cons p ps ih =>
    have htext : textAfter last p = textAfter none p := by
      cases p with
      | apart text => rw [textAfter, textAfter, needsBlank_of_isSign h]; rfl
      | tight text => rfl
    rw [renderAfter, renderAfter, htext]
    cases (textAfter none p).getLast? with
    | none => exact congrArg _ (ih h)
    | some c => rfl

theorem renderAfter_apart {c : Char} (h : isSign c = true) (text : String) (ps : List Piece) :
    renderAfter (some c) (.apart text :: ps) =
      text.toList ++ renderAfter (text.toList.getLast?.or (some c)) ps := by
  have hblank : needsBlank (some c) text.toList = false :=
    needsBlank_of_isSign (by simpa using h) _
  simp [renderAfter, textAfter, hblank]

theorem renderAfter_sign {c : Char} (h : isSign c = true) (last : Option Char)
    (ps : List Piece) : renderAfter last (.apart (String.singleton c) :: ps) =
      c :: renderAfter (some c) ps := by
  have hblank : needsBlank last [c] = false := by
    cases last with
    | none => rfl
    | some d => exact (not_merges_of_isSign h d).2
  simp [renderAfter, textAfter, hblank]

def isClosing (c : Char) : Bool :=
  c == ';' || c == '\x7d'

theorem isSign_of_isClosing {c : Char} (h : isClosing c = true) : isSign c = true := by
  simp only [isClosing, Bool.or_eq_true, beq_iff_eq] at h
  rcases h with rfl | rfl
  · decide
  · decide

/-- The text of pieces ends as statements end, whatever it is written behind. -/
def Ends (ps : List Piece) : Prop :=
  ∀ last, ∃ front c, renderAfter last ps = front ++ [c] ∧ isClosing c = true

section
variable {ps qs : List Piece}

theorem Ends.append (h : Ends qs) : Ends (ps ++ qs) := by
  intro last
  obtain ⟨front, c, hrender, hc⟩ := h ((renderAfter last ps).getLast?.or last)
  refine ⟨renderAfter last ps ++ front, c, ?_, hc⟩
  rw [renderAfter_append, hrender, List.append_assoc]

theorem Ends.isSign (h : Ends ps) (last : Option Char) :
    ∀ c ∈ (renderAfter last ps).getLast?.or last, isSign c = true := by
  obtain ⟨front, c, hrender, hc⟩ := h last
  rw [hrender, List.getLast?_concat]
  simpa using isSign_of_isClosing hc

theorem ends_semicolon : Ends (ps ++ stick ";") :=
  Ends.append fun _ => ⟨[], ';', rfl, rfl⟩

theorem ends_put {text : String} (front : List Char) {c : Char}
    (htext : text.toList = front ++ [c]) (hc : isClosing c = true) : Ends (put text) := by
  intro last
  rw [put, renderAfter, renderAfter, textAfter, htext]
  split
  · exact ⟨' ' :: front, c, List.append_nil _, hc⟩
  · exact ⟨front, c, List.append_nil _, hc⟩

theorem ends_braces : Ends (braces ps) :=
  .append (ends_put [] rfl rfl)

end

end Piece

/-!
# The end of a statement

A statement ends in a sign, and no blank is needed behind a sign.
-/

open Piece

theorem Func.ends : (f : Func) → Ends f.pieces
  | ⟨_, _, _, _, _, _⟩ => ends_braces.append

theorem Declaration.ends : (d : Declaration) → Ends d.pieces
  | .vars _ _ _ => ends_semicolon
  | .function _ value => value.ends
  | .class _ _ _ _ => ends_braces.append

theorem Expr.ends_of_declares {e : Expr} (h : e.declares = true) :
    Ends (e.fit Level.assignment e.pieces) := by
  cases e with
  | function _ f => exact f.ends
  | «class» => exact ends_braces.append
  | _ => cases h

theorem Stmt.ends : (s : Stmt) → Ends s.pieces
  | .decl value => value.ends
  | .block _ _ => ends_braces
  | .ifThen _ _ body | .ifElse _ _ _ body | .forLoop _ _ _ _ body | .forIn _ _ _ body
  | .forOf _ _ _ body | .whileLoop _ _ body | .labeled _ _ body => body.ends.append
  | .switch _ _ _ => .append (ends_put [] rfl rfl)
  | .doWhile _ _ _ => .append (ends_put [')'] rfl rfl)
  | .tryCatch _ _ _ _ _ | .tryFinally _ _ _ | .tryCatchFinally _ _ _ _ _ _ => ends_braces.append
  | .breakTo _ _ | .continueTo _ _ | .ret _ _ | .throw _ _ | .expr _ _ | .debugger _
  | .importFrom _ _ _ | .exportNamed _ _ _ | .exportAll _ _ => ends_semicolon
  | .empty _ => show Ends ([] ++ stick ";") from ends_semicolon
  | .exportDefault _ value => by
    rw [Stmt.pieces]
    split
    · rename_i hdeclares
      rw [List.append_nil]
      exact (Expr.ends_of_declares hdeclares).append
    · exact ends_semicolon
  | .exportDecl _ value => value.ends.append

def Stmt.print (s : Stmt) : String :=
  Program.print [s]

theorem Stmt.toList_print (s : Stmt) : s.print.toList = renderAfter none s.pieces := by
  rw [print, Program.print, render, String.toList_ofList]
  exact congrArg _ (List.append_nil s.pieces)

theorem Stmt.listPieces_append (body body' : List Stmt) :
    Stmt.listPieces (body ++ body') = Stmt.listPieces body ++ Stmt.listPieces body' := by
  induction body with
  | nil => rfl
  | cons s body ih => exact (congrArg (s.pieces ++ ·) ih).trans (List.append_assoc _ _ _).symm

/-- Behind a sign, and behind nothing, statements are written one by one. -/
theorem renderAfter_listPieces {last : Option Char} (h : ∀ c ∈ last, isSign c = true)
    (body : List Stmt) :
    renderAfter last (Stmt.listPieces body) = (String.join (body.map Stmt.print)).toList := by
  induction body generalizing last with
  | nil => rfl
  | cons s body ih =>
    obtain ⟨front, c, hrender, hc⟩ := s.ends last
    change renderAfter last (s.pieces ++ Stmt.listPieces body) = _
    rw [renderAfter_append, hrender, List.getLast?_concat, Option.some_or,
      ih (by simpa using isSign_of_isClosing hc), ← hrender, renderAfter_of_isSign h,
      ← Stmt.toList_print, List.map_cons, String.join_cons, String.toList_append]

theorem isSign_getLast?_listPieces (body : List Stmt) :
    ∀ c ∈ (renderAfter none (Stmt.listPieces body)).getLast?.or none, isSign c = true := by
  rcases List.eq_nil_or_concat' body with rfl | ⟨body, s, rfl⟩
  · simp [Stmt.listPieces, renderAfter]
  · rw [Stmt.listPieces_append]
    refine Ends.isSign (.append ?_) none
    change Ends (s.pieces ++ [])
    rw [List.append_nil]
    exact s.ends

def factoryOpening (hasExports : Bool) : List Piece :=
  [.apart "function", .apart "(", .apart ")", .apart "\x7b", .apart "var", .tight " ",
    .apart "module", .apart "=", .apart "\x7b", .apart "exports", .apart ":", .apart "\x7b",
    .apart "\x7d", .apart ",", .apart "es6", .apart ":", .apart "\x7b", .apart "\x7d", .apart ",",
    .apart "hasES6Exports", .apart ":", .apart (if hasExports then "true" else "false"),
    .apart "\x7d", .tight ";"]

def factoryClosing : List Piece :=
  [.apart "return", .apart "module", .tight ";", .apart "\x7d", .tight ";"]

theorem pieces_factory (path : String) (hasExports : Bool) (body : List Stmt) :
    (factory path hasExports body).pieces =
      [.apart "moduleFns", .apart "."] ++ .apart (ModulePath.id path) ::
        .apart (String.singleton '=') ::
          (factoryOpening hasExports ++ (Stmt.listPieces body ++ factoryClosing)) := by
  have hbody : (factory path hasExports body).pieces =
      [.apart "moduleFns", .apart "."] ++ .apart (ModulePath.id path) ::
        .apart (String.singleton '=') :: (factoryOpening hasExports ++
          (Stmt.listPieces (body ++ [.ret .nowhere (some (Make.ident "module"))]) ++
            [.apart "\x7d"] ++ [.tight ";"])) :=
    rfl
  rw [hbody, Stmt.listPieces_append, List.append_assoc, List.append_assoc]
  rfl

theorem render_factoryParts :
    renderAfter none [.apart "moduleFns", .apart "."] = "moduleFns.".toList ∧
    (∀ hasExports, renderAfter (some '=') (factoryOpening hasExports) = String.toList
      ("function()\x7bvar module=\x7bexports:\x7b\x7d,es6:\x7b\x7d,hasES6Exports:" ++
        (if hasExports then "true" else "false") ++ "\x7d;")) ∧
    renderAfter none factoryClosing = "return module;\x7d;".toList := by
  decide +kernel

theorem print_factory (path : String) (hasExports : Bool) (body : List Stmt) :
    Program.print [factory path hasExports body] =
      "moduleFns." ++ ModulePath.id path ++
        "=function()\x7bvar module=\x7bexports:\x7b\x7d,es6:\x7b\x7d,hasES6Exports:" ++
        (if hasExports then "true" else "false") ++ "\x7d;" ++
        String.join (body.map Stmt.print) ++ "return module;\x7d;" := by
  obtain ⟨hname, hopening, hclosing⟩ := render_factoryParts
  have hends : Ends (factoryOpening hasExports) :=
    show Ends ((factoryOpening hasExports).dropLast ++ stick ";") from ends_semicolon
  change (factory path hasExports body).print = _
  rw [← String.toList_inj, Stmt.toList_print, pieces_factory, renderAfter_append, hname,
    show "moduleFns.".toList.getLast?.or none = some '.' from rfl, renderAfter_apart (by decide),
    renderAfter_sign (by decide), renderAfter_append, renderAfter_of_isSign (hends.isSign _),
    hopening, renderAfter_append, renderAfter_of_isSign (isSign_getLast?_listPieces body),
    renderAfter_listPieces (by simp), hclosing]
  simp

namespace LoadedModule

/-- Printing goes from statement to statement: a program is printed as its
statements one after the other, and each of them as a text that ends in a
semicolon or a closing brace.  The code of a module is therefore the texts of
its converted statements inside the function that makes the module. -/
theorem code_by_statements :
    (∀ p : Program, p.print = String.join (p.map Stmt.print) ∧
      ∀ s ∈ p, ∃ front c, s.print.toList = front ++ [c] ∧ (c = ';' ∨ c = '\x7d')) ∧
    ∀ (path : String) (bytes : List UInt8) (m : LoadedModule), ofBytes path bytes = .ok m →
      ∃ p, Program.ofSource (Utf8.decodeLossy bytes) = .ok p ∧
        m.code = "moduleFns." ++ ModulePath.id path ++
          "=function()\x7bvar module=\x7bexports:\x7b\x7d,es6:\x7b\x7d,hasES6Exports:" ++
          (if p.exports then "true" else "false") ++ "\x7d;" ++
          String.join ((Stmt.listToFactory path p).map Stmt.print) ++ "return module;\x7d;" := by
  refine ⟨fun p => ⟨?_, fun s _ => ?_⟩, fun path bytes m hm => ?_⟩
  · rw [← String.toList_inj, Program.print, render, String.toList_ofList]
    exact renderAfter_listPieces (by simp) p
  · obtain ⟨front, c, hrender, hc⟩ := s.ends none
    rw [Stmt.toList_print]
    exact ⟨front, c, hrender, by simpa [isClosing] using hc⟩
  · unfold ofBytes ofText at hm
    split at hm
    · rename_i p hp
      obtain rfl := Except.ok.inj hm
      exact ⟨p, hp, print_factory path p.exports _⟩
    · cases hm

def exportSource : List UInt8 :=
  "export var a;".toList.flatMap String.utf8EncodeChar

/-- An empty statement, and a module with an export. -/
theorem code_by_statements_export :
    (Stmt.empty .nowhere ∈ [Stmt.empty .nowhere] ∧
      ∃ front c, (Stmt.empty .nowhere).print.toList = front ++ [c] ∧ (c = ';' ∨ c = '\x7d')) ∧
    ∃ m, ofBytes "index.js" exportSource = .ok m ∧
      ∃ p, Program.ofSource (Utf8.decodeLossy exportSource) = .ok p ∧
        m.code = "moduleFns." ++ ModulePath.id "index.js" ++
          "=function()\x7bvar module=\x7bexports:\x7b\x7d,es6:\x7b\x7d,hasES6Exports:" ++
          (if p.exports then "true" else "false") ++ "\x7d;" ++
          String.join ((Stmt.listToFactory "index.js" p).map Stmt.print) ++
          "return module;\x7d;" := by
  refine ⟨⟨.head _, (code_by_statements.1 [.empty .nowhere]).2 _ (.head _)⟩, ?_⟩
  have hread : (ofBytes "index.js" exportSource).isOk = true := by decide +kernel
  cases hm : ofBytes "index.js" exportSource with
  | ok m => exact ⟨m, rfl, code_by_statements.2 _ _ m hm⟩
  | error cause =>
    rw [hm] at hread
    cases hread

end LoadedModule
end ScriptBundler
