import ScriptBundler.Proofs.RoundTrip
import ScriptBundler.Proofs.Replacement
import ScriptBundler.Module.Source

/-!
# Factories are well-formed

The factory of a well-formed script is a well-formed tree, as long as the
modules that the script names have names for ids and the variables that it
imports or exports by name are no keywords.
-/

namespace ScriptBundler

variable {path name source : String} {specifiers : List ImportSpecifier} {cx : Grammar.Context}
  {body : List Stmt} {sp : Span} {T : Grammar.Texts}

namespace Node

def locals : Node → List String
  | .stmt (.importFrom _ _ specifiers) => specifiers.map ImportSpecifier.bound
  | .stmt (.exportNamed _ none specifiers) => specifiers.map ExportSpecifier.name
  | _ => []

end Node

namespace Grammar

open Grammar.Stream

/-!
# What stays the same in a factory

Converting an expression keeps its level, how it starts and what may be put behind
it.
-/

section
variable (path : String) (e : Expr) (s : Stmt)

theorem Expr.level_toFactory : (e.toFactory path).level = e.level := by
  cases e <;> rfl

theorem isNewBare_toFactory : isNewBare (e.toFactory path) = isNewBare e := by
  cases e <;> rfl

theorem isAssignable_toFactory (e : Expr) : (e.toFactory path).isAssignable = e.isAssignable := by
  cases e with
  | paren _ inner => exact isAssignable_toFactory inner
  | _ => rfl

theorem constructs_toFactory (e : Expr) : constructs (e.toFactory path) = constructs e := by
  cases e with
  | dot _ object | index _ object | tagged _ object => exact constructs_toFactory object
  | _ => rfl

theorem Func.name_toFactory (f : Func) : (f.toFactory path).name = f.name := by
  cases f
  rfl

theorem IsObject.toFactory {path : String} {e : Expr} (h : IsObject e) :
    IsObject (e.toFactory path) :=
  ⟨(Expr.level_toFactory path e).trans h.1, (isNewBare_toFactory path e).trans h.2⟩

theorem isPattern_toFactory (b : Binding) : isPattern (b.toFactory path) = isPattern b := by
  cases b <;> rfl

theorem bindingLead_toFactory (b : Binding) : bindingLead (b.toFactory path) = bindingLead b := by
  cases b <;> rfl

mutual

theorem exprLead_toFactory (e : Expr) : exprLead (e.toFactory path) = exprLead e := by
  cases e with
  | dot _ first | index _ first | call _ first | tagged _ first | binary _ _ first
  | conditional _ first | assign _ _ first => exact exprLead_toFactory first
  | update _ _ leading first =>
    cases leading with
    | true => rfl
    | false => exact exprLead_toFactory first
  | sequence _ items => exact listLead_toFactory items
  | assignPattern _ target => exact bindingLead_toFactory path target
  | function _ f => cases f; rfl
  | _ => rfl

theorem listLead_toFactory : (es : List Expr) → listLead (Expr.listToFactory path es) = listLead es
  | [] => rfl
  | first :: _ => exprLead_toFactory first

end

end

def madeNames : List String :=
  ["modules", "module", "moduleFns", "requireES6", "Object", "es6", "assign", "exports",
    "hasES6Exports"]

theorem worded_made (h : name ∈ madeNames) : Worded .identifier name := by
  revert name
  decide +kernel

theorem worded_keys : Worded (.keyword .kwDefault) "default" ∧ Worded (.punct .star) "*" ∧
    Worded .stringQuote "'" := by
  decide +kernel

theorem isName_default : IsName "default" :=
  ⟨_, rfl, worded_keys.1⟩

theorem isString_quoted {l : Lexeme} (hown : Lexeme.lexemes l.text.toList = [l])
    (hends : l.endsBefore '\'' = true) (hend : l.kind ≠ .endOfInput) (hline : l.kind ≠ .newline)
    (hescape : l.kind ≠ .punct .escape) (hquote : l.kind ≠ .stringQuote) :
    IsString ("'" ++ l.text ++ "'") := by
  have hclose : Lexeme.lexemes ['\''] = [⟨.stringQuote, "'"⟩] := worded_keys.2.2
  have htext : ("'" ++ l.text ++ "'").toList = [] ++ '\'' :: (l.text.toList ++ ['\'']) := by
    rw [String.toList_append, String.toList_append]
    rfl
  have hlexemes : Lexeme.lexemes ("'" ++ l.text ++ "'").toList =
      [⟨.stringQuote, "'"⟩, l, ⟨.stringQuote, "'"⟩] := by
    rw [htext, Lexeme.lexemes_quote _ _ rfl, List.nil_append, hclose, Lexeme.lexemes_append hown,
      hclose]
    · rfl
    · rintro d ⟨⟩
      exact hends
  have hls := holds_lex ("'" ++ l.text ++ "'") false
  obtain ⟨hlt, hfirst, hdrop⟩ := hls.token_of_drop (i := 0) hlexemes
  obtain ⟨-, hmiddle, hdrop⟩ := hls.token_of_drop hdrop
  obtain ⟨-, hlast, -⟩ := hls.token_of_drop hdrop
  generalize (⟨Token.lex ("'" ++ l.text ++ "'"), false⟩ : Stream) = ts at hls hfirst hmiddle hlast
  have hskip : ts.skip 0 = (0, false) := by
    refine skip_of_blanks ⟨Nat.le_refl 0, fun n hn hn' => absurd hn' (by omega)⟩ ?_ ?_
    · rw [hls.size]
      exact Nat.lt_succ_of_lt hlt
    · rw [trivium?, show (ts.token 0).kind = .stringQuote from congrArg Lexeme.kind hfirst]
  refine ⟨ts.reading, _, 0, 3, hls, ?_, ?_, ?_, trivial⟩
  · rw [kindAt, nextAt, hskip]
    exact congrArg Lexeme.kind hfirst
  · have htextAt : ts.textAt 0 = "'" := by
      rw [textAt, nextAt, hskip]
      exact congrArg Lexeme.text hfirst
    have hpast : ts.past 0 = 1 := by rw [past, hskip]
    rw [htextAt, hpast]
    have hkind : (ts.token 1).kind = l.kind := congrArg Lexeme.kind hmiddle
    exact .plain (hkind ▸ hend) (hkind ▸ hline) (hkind ▸ hescape) (hkind ▸ hquote)
      (.close (congrArg Lexeme.kind hlast) (congrArg Lexeme.text hlast))
  · rw [hskip, ← String.toList_inj, toList_textBetween (Nat.zero_le 3),
      hls.between_eq (by rw [hlexemes]; exact Nat.le_refl 3), hlexemes]
    rw [String.toList_append, String.toList_append, List.append_assoc]
    rfl

theorem IsName.isString_quoted (h : IsName name) : IsString ("'" ++ name ++ "'") := by
  obtain ⟨k, hk, hword⟩ := h
  have hends : (⟨k, name⟩ : Lexeme).endsBefore '\'' = true := by
    cases k with
    | identifier | keyword => rfl
    | _ => cases hk
  refine Grammar.isString_quoted (l := ⟨k, name⟩) hword hends ?_ ?_ ?_ ?_ <;> rintro ⟨⟩ <;> cases hk

theorem isString_all : IsString ("'" ++ "*" ++ "'") :=
  isString_quoted (l := ⟨.punct .star, "*"⟩) worded_keys.2.1 rfl nofun nofun nofun nofun

/-- Texts among which are those that factories have. -/
class Texts.Makes (T : Texts) : Prop where
  word {name : String} : name ∈ madeNames → T.word .identifier name
  defaultName : T.IsName "default"
  quoted {name : String} : T.IsName name → T.string ("'" ++ name ++ "'")
  all : T.string ("'" ++ "*" ++ "'")

instance : Texts.script.Makes :=
  ⟨worded_made, isName_default, IsName.isString_quoted, isString_all⟩

instance : Texts.any.Makes :=
  ⟨fun _ => trivial, ⟨.identifier, rfl, trivial⟩, fun _ => trivial, trivial⟩

theorem Texts.isVariable_of_word (h : T.word .identifier name) : T.IsVariable name :=
  ⟨.identifier, rfl, h⟩

theorem Texts.isVariable_made [T.Makes] (h : name ∈ madeNames) : T.IsVariable name :=
  isVariable_of_word (Makes.word h)

theorem Texts.isName_made [T.Makes] (h : name ∈ madeNames) : T.IsName name :=
  (isVariable_made h).isName

theorem Formed.isString_key [T.Makes] (h : Formed T (.importClause specifiers)) :
    ∀ s ∈ specifiers, T.string ("'" ++ s.key ++ "'") := by
  have hitems : ∀ {cx xs}, Formed T (.items cx .importName xs) →
      ∀ s ∈ xs, T.string ("'" ++ s.key ++ "'") := by
    intro cx xs hxs
    induction xs with
    | nil => exact nofun
    | cons x xs ih =>
      cases hxs with
      | hole hhole => cases hhole
      | moreItems hitem hitems =>
        cases hitem with
        | imported hname => exact List.forall_mem_cons.mpr ⟨Texts.Makes.quoted hname, ih hitems⟩
  have hlist : ∀ {xs}, Formed T (.importList xs) → ∀ s ∈ xs, T.string ("'" ++ s.key ++ "'") := by
    intro xs hxs
    cases hxs with
    | importAll => exact List.forall_mem_singleton.mpr Texts.Makes.all
    | importNames h => exact hitems h
  cases h with
  | clauseBoth _ hrest =>
    exact List.forall_mem_cons.mpr ⟨Texts.Makes.quoted Texts.Makes.defaultName, hlist hrest⟩
  | clauseList h => exact hlist h

mutual

theorem isVariable_names : (b : Binding) → Formed T (.binding cx b) →
    ∀ name ∈ b.names, T.IsVariable name
  | .ident _ _, .bound h => List.forall_mem_singleton.mpr h
  | .array _ elements, .boundArray h => isVariable_arrayNames elements h
  | .object _ properties, .boundObject h => isVariable_objectNames properties h

theorem isVariable_arrayNames : (xs : List ArrayElement) →
    Formed T (.items cx .arrayElement xs) → ∀ name ∈ ArrayElement.listNames xs, T.IsVariable name
  | [], _ => nofun
  | .hole :: xs, .hole _ h => isVariable_arrayNames xs h
  | .item b _ :: xs, .moreItems (.arrayItem h _) h' =>
    List.forall_mem_append.mpr ⟨isVariable_names b h, isVariable_arrayNames xs h'⟩
  | .rest b :: xs, .moreItems (.arrayRest h) h' =>
    List.forall_mem_append.mpr ⟨isVariable_names b h, isVariable_arrayNames xs h'⟩

theorem isVariable_objectNames : (xs : List ObjectElement) →
    Formed T (.items cx .objectElement xs) → ∀ name ∈ ObjectElement.listNames xs, T.IsVariable name
  | [], _ => nofun
  | .shorthand _ _ _ :: xs, .moreItems (.objectShort h _) h' =>
    List.forall_mem_cons.mpr ⟨Texts.isVariable_of_word h, isVariable_objectNames xs h'⟩
  | .pair _ b _ :: xs, .moreItems (.objectPair _ h _) h' =>
    List.forall_mem_append.mpr ⟨isVariable_names b h, isVariable_objectNames xs h'⟩
  | .rest _ _ :: xs, .moreItems (.objectRest h) h' =>
    List.forall_mem_cons.mpr ⟨Texts.isVariable_of_word h, isVariable_objectNames xs h'⟩

end

section
variable {id : String} {sp' : Span} {e : Expr} {stop : List Token.Kind}

theorem assignment_le_closed : Level.assignment ≤ Level.closed := by
  decide

theorem formed_ident (h : T.IsVariable name) : Formed T (.expr cx (Make.ident name)) :=
  .ident h

theorem formed_made [T.Makes] (h : name ∈ madeNames) : Formed T (.expr cx (Make.ident name)) :=
  formed_ident (Texts.isVariable_made h)

theorem formed_dot (h : Formed T (.expr cx e)) (hobject : IsObject e) (hname : T.IsName name) :
    Formed T (.expr cx (Make.dot e name)) :=
  .dot h hobject hname

theorem formed_moduleEntry [T.Makes] (h : T.IsName id) :
    Formed T (.expr cx (Make.moduleEntry id)) :=
  formed_dot (formed_made (by decide)) ⟨rfl, rfl⟩ h

theorem formed_exportTable [T.Makes] : Formed T (.expr cx Make.exportTable) :=
  formed_dot (formed_made (by decide)) ⟨rfl, rfl⟩ (Texts.isName_made (by decide))

theorem formed_lookup [T.Makes] (hid : T.IsName id) (hname : T.string ("'" ++ name ++ "'")) :
    Formed T (.expr cx (Make.lookup id name)) :=
  .call (formed_made (by decide)) ⟨rfl, rfl⟩
    (.moreItems (.plainArg (formed_moduleEntry hid) assignment_le_closed)
      (.moreItems (.plainArg (.string hname) assignment_le_closed) .noItems))

theorem formed_write [T.Makes] (hname : T.IsName name) (h : Formed T (.expr cx e))
    (hlevel : Level.assignment ≤ e.level) :
    Formed T (.expr cx (Make.assign (Make.exportEntry name) e)) :=
  .assign (formed_dot formed_exportTable ⟨rfl, rfl⟩ hname) rfl h hlevel

/-!
# Statements that are made

Imports become declarations, and exports become assignments to the table.
-/

theorem Formed.stmts_append {body body' : List Stmt} (h : Formed T (.stmts cx stop body))
    (h' : Formed T (.stmts cx stop body')) : Formed T (.stmts cx stop (body ++ body')) := by
  induction body with
  | nil => exact h'
  | cons s body ih =>
    cases h with
    | moreStmts hstmt hbody => exact .moreStmts hstmt (ih hbody)

theorem Formed.restop {stop' : List Token.Kind} (h : Formed T (.stmts cx stop body)) :
    Formed T (.stmts cx stop' body) := by
  induction body with
  | nil => exact .noStmts
  | cons s body ih =>
    cases h with
    | moreStmts hstmt hbody => exact .moreStmts hstmt (ih hbody)

theorem Formed.single {s : Stmt} (h : Formed T (.stmt cx s)) : Formed T (.stmts cx stop [s]) :=
  .moreStmts h .noStmts

theorem Formed.oneStatement (h : Formed T (.stmts cx stop body)) :
    Formed T (.stmt cx (oneStatement sp body)) := by
  match body, h with
  | [], _ => exact .empty
  | [s], .moreStmts h _ => exact h
  | s :: s' :: body, h => exact .blockStmt (.block h.restop)

theorem formed_decls {ds : List Declarator} (hne : ds ≠ [])
    (h : ∀ d ∈ ds, Formed T (.decl cx d)) : Formed T (.decls cx ds) := by
  induction ds with
  | nil => exact absurd rfl hne
  | cons d ds ih =>
    obtain ⟨hd, hds⟩ := List.forall_mem_cons.mp h
    cases ds with
    | nil => exact .lastDecl hd
    | cons d' ds => exact .moreDecls hd (ih (List.cons_ne_nil _ _) hds)

theorem formed_others {es : List Expr} (hne : es ≠ [])
    (h : ∀ e ∈ es, Formed T (.expr cx e) ∧ Level.assignment ≤ e.level) :
    Formed T (.others cx es) := by
  induction es with
  | nil => exact absurd rfl hne
  | cons e es ih =>
    obtain ⟨⟨he, hlevel⟩, hes⟩ := List.forall_mem_cons.mp h
    cases es with
    | nil => exact .other he hlevel
    | cons e' es => exact .moreOthers he hlevel (ih (List.cons_ne_nil _ _) hes)

theorem formed_writes [T.Makes] {α : Type} {xs : List α} {entry : α → String} {value : α → Expr}
    (hentry : ∀ x ∈ xs, T.IsName (entry x))
    (hvalue : ∀ x ∈ xs, Formed T (.expr cx (value x)) ∧ Level.assignment ≤ (value x).level) :
    Formed T (.stmts cx stop (Make.sequence sp
      (xs.map fun x => Make.assign (Make.exportEntry (entry x)) (value x)))) := by
  have hwrite : ∀ x ∈ xs,
      Formed T (.expr cx (Make.assign (Make.exportEntry (entry x)) (value x))) :=
    fun x hx => formed_write (hentry x hx) (hvalue x hx).1 (hvalue x hx).2
  match xs, hwrite with
  | [], _ => exact .noStmts
  | [x], hwrite => exact .single (.exprStmt rfl (hwrite x List.mem_cons_self))
  | x :: x' :: xs, hwrite =>
    refine .single (.exprStmt rfl (.sequence (hwrite x List.mem_cons_self) (Nat.le_refl _)
      (formed_others (List.cons_ne_nil _ _) ?_)))
    refine List.forall_mem_map.mpr ?_
    exact fun y hy => ⟨hwrite y (List.mem_cons_of_mem _ hy), Nat.le_refl _⟩

theorem formed_importedVariables [T.Makes] (hid : T.IsName (sourceId path source))
    (hkeys : ∀ s ∈ specifiers, T.string ("'" ++ s.key ++ "'"))
    (hbound : ∀ s ∈ specifiers, T.IsVariable s.bound) :
    Formed T (.stmts cx stop (importedVariables path sp source specifiers)) := by
  have hdecl : ∀ s ∈ specifiers,
      Formed T (.decl cx (ImportSpecifier.declarator (sourceId path source) s)) := by
    intro s hs
    have hkey := hkeys s hs
    have hname := hbound s hs
    cases s <;> exact .decl (.bound hname) (.value (formed_lookup hid hkey) assignment_le_closed)
  unfold importedVariables
  dsimp only
  split
  · exact .noStmts
  · rename_i hne
    refine .single (.vars (formed_decls (fun h => hne (List.map_eq_nil_iff.mp h)) ?_))
    rw [List.forall_mem_map]
    intro s hs
    refine hdecl s ?_
    rcases List.mem_append.mp hs with hs | hs <;> exact (List.mem_filter.mp hs).1

theorem formed_exportedNames [T.Makes] {cx' : Context} {source : Option String}
    {specifiers : List ExportSpecifier} (h : Formed T (.items cx' .exportName specifiers))
    (hid : ∀ raw ∈ source, T.IsName (sourceId path raw))
    (hlocals : source = none → ∀ s ∈ specifiers, T.IsVariable s.name) :
    Formed T (.stmts cx stop (exportedNames path sp source specifiers)) := by
  have hnames : ∀ s ∈ specifiers, T.IsName s.name ∧ T.IsName s.exported := by
    clear hlocals
    induction specifiers with
    | nil => exact nofun
    | cons s specifiers ih =>
      cases h with
      | hole hhole => cases hhole
      | moreItems hitem hitems =>
        cases hitem with
        | exportedName hname hexported =>
          exact List.forall_mem_cons.mpr ⟨⟨hname, hexported⟩, ih hitems⟩
  refine formed_writes (fun s hs => (hnames s hs).2) fun s hs => ?_
  cases source with
  | none => exact ⟨formed_ident (hlocals rfl s hs), assignment_le_closed⟩
  | some raw =>
    exact ⟨formed_lookup (hid raw rfl) (Texts.Makes.quoted (hnames s hs).1), assignment_le_closed⟩

theorem formed_exportedDefault [T.Makes] (h : Formed T (.exported cx e)) :
    Formed T (.stmts cx stop (ScriptBundler.exportedDefault sp e)) := by
  have hwrite : ∀ {e}, Formed T (.expr cx e) → Level.assignment ≤ e.level →
      Formed T (.stmt cx (.expr sp (Make.assign (Make.exportEntry "default") e))) :=
    fun h hlevel => .exprStmt rfl (formed_write Texts.Makes.defaultName h hlevel)
  cases h with
  | @exportedFunc _ sp' f hf =>
    obtain ⟨sp₁, name, isAsync, isGenerator, params, body⟩ := f
    cases name with
    | none => exact .single (hwrite (.function hf) assignment_le_closed)
    | some name =>
      have hname : T.word .identifier name := by
        cases hf with
        | func hrest =>
          cases hrest with
          | funcRest hname => exact hname name rfl
      exact .moreStmts (.functionDecl rfl hf)
        (.single (hwrite (formed_ident (Texts.isVariable_of_word hname)) assignment_le_closed))
  | @exportedClass _ sp' name base members hclass =>
    cases name with
    | none => exact .single (hwrite (.class hclass) assignment_le_closed)
    | some name =>
      have hname : T.word .identifier name := by
        cases hclass with
        | classRest hname => exact hname name rfl
      exact .moreStmts (.classDecl rfl hclass)
        (.single (hwrite (formed_ident (Texts.isVariable_of_word hname)) assignment_le_closed))
  | exportedValue hlead he hlevel =>
    cases e with
    | function _ f =>
      rw [exprLead] at hlead
      split at hlead <;> exact absurd hlead (by decide)
    | «class» => rcases hlead with h | h <;> cases h
    | _ => exact .single (hwrite he hlevel)

theorem formed_exportedAll [T.Makes] (hid : T.IsName (sourceId path source)) :
    Formed T (.stmts cx stop (exportedAll path sp source)) := by
  exact .single (.exprStmt rfl (.call
    (formed_dot (formed_made (by decide)) ⟨rfl, rfl⟩ (Texts.isName_made (by decide))) ⟨rfl, rfl⟩
    (.moreItems (.plainArg formed_exportTable assignment_le_closed)
      (.moreItems (.plainArg (formed_lookup hid Texts.Makes.all) assignment_le_closed) .noItems))))

theorem Formed.decl_binding {ds : List Declarator} (h : Formed T (.decls cx ds)) :
    ∀ d ∈ ds, Formed T (.binding cx.allowIn d.binding) := by
  induction ds with
  | nil => exact nofun
  | cons d ds ih =>
    cases h with
    | lastDecl hd =>
      cases hd with
      | decl hbinding => exact List.forall_mem_singleton.mpr hbinding
    | moreDecls hd hds =>
      cases hd with
      | decl hbinding => exact List.forall_mem_cons.mpr ⟨hbinding, ih hds⟩

theorem Formed.isVariable_declared {d : Declaration} (h : Formed T (.stmt cx (.decl d))) :
    ∀ name ∈ d.names, T.IsVariable name := by
  cases h with
  | vars hds =>
    intro name hname
    obtain ⟨d, hd, hname⟩ := List.mem_flatMap.mp hname
    exact isVariable_names _ (hds.decl_binding d hd) name hname
  | functionDecl _ hf =>
    cases hf with
    | func hrest =>
      cases hrest with
      | funcRest hnames =>
        exact fun name hname => Texts.isVariable_of_word (hnames name (Option.mem_toList.mp hname))
  | classDecl _ hclass =>
    cases hclass with
    | classRest hnames =>
      exact fun name hname => Texts.isVariable_of_word (hnames name (Option.mem_toList.mp hname))

end

theorem endsOpen_oneStatement_of_all (h : ∀ s ∈ body, endsOpen s = false) :
    endsOpen (oneStatement sp body) = false := by
  match body, h with
  | [], _ => rfl
  | [s], h => exact h s List.mem_cons_self
  | _ :: _ :: _, _ => rfl

theorem endsOpen_sequence {es : List Expr} : ∀ s ∈ Make.sequence sp es, endsOpen s = false := by
  match es with
  | [] => exact nofun
  | [_] | _ :: _ :: _ => exact List.forall_mem_singleton.mpr rfl

theorem endsOpen_importedVariables :
    ∀ s ∈ importedVariables path sp source specifiers, endsOpen s = false := by
  unfold importedVariables
  dsimp only
  split
  · exact nofun
  · exact List.forall_mem_singleton.mpr rfl

theorem endsOpen_exportedDefault {e : Expr} :
    ∀ s ∈ ScriptBundler.exportedDefault sp e, endsOpen s = false := by
  unfold ScriptBundler.exportedDefault
  dsimp only
  split
  · split
    · exact List.forall_mem_cons.mpr ⟨rfl, List.forall_mem_singleton.mpr rfl⟩
    · exact List.forall_mem_singleton.mpr rfl
  · exact List.forall_mem_cons.mpr ⟨rfl, List.forall_mem_singleton.mpr rfl⟩
  · exact List.forall_mem_singleton.mpr rfl

theorem endsOpen_toFactory (path : String) (sp : Span) (s : Stmt) :
    endsOpen (oneStatement sp (s.toFactory path)) = endsOpen s := by
  cases s with
  | ifElse _ _ _ last | forLoop _ _ _ _ last | forIn _ _ _ last | forOf _ _ _ last
  | whileLoop _ _ last | labeled _ _ last => exact endsOpen_toFactory path last.span last
  | importFrom => exact endsOpen_oneStatement_of_all endsOpen_importedVariables
  | exportNamed => exact endsOpen_oneStatement_of_all endsOpen_sequence
  | exportDefault => exact endsOpen_oneStatement_of_all endsOpen_exportedDefault
  | exportDecl =>
    exact endsOpen_oneStatement_of_all (List.forall_mem_cons.mpr ⟨rfl, endsOpen_sequence⟩)
  | _ => rfl

/-!
# Phrases

There is one case for each rule for well-formed trees.
-/

/-- A node whose links can be written down: the module it names has a name for
its id, and what it imports or exports by name can name a variable. -/
structure Linkable (T : Texts) (path : String) (n : Node) : Prop where
  id : ∀ raw ∈ n.specifier?, T.IsName (sourceId path raw)
  locals : ∀ name ∈ n.locals, T.IsVariable name

def AllLinkable (T : Texts) (path : String) (ns : List Node) : Prop :=
  ∀ n ∈ ns, Linkable T path n

section
variable {n : Node} {ns ns' : List Node}

theorem AllLinkable.tail (h : AllLinkable T path (n :: ns)) : AllLinkable T path ns :=
  (List.forall_mem_cons.mp h).2

theorem AllLinkable.head (h : AllLinkable T path (n :: ns)) : Linkable T path n :=
  (List.forall_mem_cons.mp h).1

theorem AllLinkable.cons (h : AllLinkable T path ns) (hn : Linkable T path n) :
    AllLinkable T path (n :: ns) :=
  List.forall_mem_cons.mpr ⟨hn, h⟩

theorem AllLinkable.append (h : AllLinkable T path ns) (h' : AllLinkable T path ns') :
    AllLinkable T path (ns ++ ns') :=
  List.forall_mem_append.mpr ⟨h, h'⟩

theorem AllLinkable.of_eq (h : AllLinkable T path ns) (heq : ns = ns') : AllLinkable T path ns' :=
  heq ▸ h

theorem AllLinkable.left (h : AllLinkable T path (ns ++ ns')) : AllLinkable T path ns :=
  (List.forall_mem_append.mp h).1

theorem AllLinkable.right (h : AllLinkable T path (ns ++ ns')) : AllLinkable T path ns' :=
  (List.forall_mem_append.mp h).2

end

section
variable (path : String)

def itemToFactory (c : ItemClass) : c.Item → c.Item :=
  match c with
  | .param => Param.toFactory path
  | .arg => Expr.toFactory path
  | .element => Expr.optionToFactory path
  | .property => Property.toFactory path
  | .arrayElement => ArrayElement.toFactory path
  | .objectElement => ObjectElement.toFactory path
  | .importName | .exportName => id

def itemsToFactory (c : ItemClass) : List c.Item → List c.Item :=
  match c with
  | .param => Param.listToFactory path
  | .arg => Expr.listToFactory path
  | .element => Expr.elementsToFactory path
  | .property => Property.listToFactory path
  | .arrayElement => ArrayElement.listToFactory path
  | .objectElement => ObjectElement.listToFactory path
  | .importName | .exportName => id

theorem itemsToFactory_nil (c : ItemClass) : itemsToFactory path c [] = [] := by
  cases c <;> rfl

theorem itemsToFactory_cons {c : ItemClass} (x : c.Item) (xs : List c.Item) :
    itemsToFactory path c (x :: xs) = itemToFactory path c x :: itemsToFactory path c xs := by
  cases c <;> rfl

theorem itemToFactory_hole {c : ItemClass} {x : c.Item} (h : c.hole = some x) :
    itemToFactory path c x = x := by
  cases c <;> cases h <;> rfl

def Phrase.toFactory : Phrase → Phrase
  | .expr cx e => .expr cx (e.toFactory path)
  | .others cx es => .others cx (Expr.listToFactory path es)
  | .items cx c xs => .items cx c (itemsToFactory path c xs)
  | .item cx c x => .item cx c (itemToFactory path c x)
  | .key cx k => .key cx (k.toFactory path)
  | .binding cx b => .binding cx (b.toFactory path)
  | .value cx v => .value cx (Expr.optionToFactory path v)
  | .func f => .func (f.toFactory path)
  | .funcRest f => .funcRest (f.toFactory path)
  | .callable cx params body =>
    .callable cx (Param.listToFactory path params) (Stmt.listToFactory path body)
  | .arrowHead isAsync params => .arrowHead isAsync (Param.listToFactory path params)
  | .classRest cx name e ms =>
    .classRest cx name (Expr.optionToFactory path e) (ClassMember.listToFactory path ms)
  | .parent cx e => .parent cx (Expr.optionToFactory path e)
  | .members cx ms => .members cx (ClassMember.listToFactory path ms)
  | .member cx m => .member cx (m.toFactory path)
  | .block cx body => .block cx (Stmt.listToFactory path body)
  | .stmts cx stop body => .stmts cx stop (Stmt.listToFactory path body)
  | .stmt cx s => .stmts cx [] (s.toFactory path)
  | .condition cx e => .condition cx (e.toFactory path)
  | .optional cx e => .optional cx (Expr.optionToFactory path e)
  | .decls cx ds => .decls cx (Declarator.listToFactory path ds)
  | .decl cx d => .decl cx (d.toFactory path)
  | .forLeft cx left => .forLeft cx (left.toFactory path)
  | .forInit cx init => .forInit cx (init.toFactory path)
  | .cases cx cs => .cases cx (SwitchCase.listToFactory path cs)
  | .case cx c => .case cx (c.toFactory path)
  | .handler cx param body =>
    .handler cx (Binding.optionToFactory path param) (Stmt.listToFactory path body)
  | .exported cx e => .exported cx (e.toFactory path)
  | ph => ph

end

section
variable {e : Expr}

theorem formed_linkedArgs [T.Makes] {callee : Expr} {args converted : List Expr}
    (h : Formed T (.items cx .arg converted))
    (hid : ∀ raw ∈ requiredSource? callee args, T.IsName (sourceId path raw)) :
    Formed T (.items cx .arg (linkedArgs path callee args converted)) := by
  unfold linkedArgs
  split
  · rename_i raw hraw
    refine .moreItems (.plainArg (formed_moduleEntry (hid raw hraw)) assignment_le_closed) ?_
    cases h with
    | noItems => exact .noItems
    | hole hhole => cases hhole
    | moreItems _ hitems => exact hitems
  · exact h

theorem level_le_toFactory {required : Nat} (h : required ≤ e.level) :
    required ≤ (e.toFactory path).level := by
  rwa [Expr.level_toFactory]

/-- What stands for a well-formed tree in a factory is well-formed. -/
theorem Formed.toFactory [T.Makes] {ph : Phrase} (h : Formed T ph)
    (hlinks : AllLinkable T path ph.nodes) : Formed T (ph.toFactory path) := by
  induction h with
  | null | bool | this | super | noValue | templateRest | substitution | noParent | noMembers
  | noStmts | left_out | noCases | noInit => constructor
  | number h | string h | regex h | quasi h | ident h | yieldNothing h | shorthand h | objectRest h
  | keyName h | keyString h | keyNumber h | bound h | template h | clauseList h | importAll h
  | importNames h => constructor; exact h
  | imported h h' | exportedName h h' | clauseBoth h h' => constructor <;> assumption
  | array _ ih => exact .array (ih (hlinks.tail.of_eq (Expr.elementNodes_eq _)))
  | object _ ih => exact .object (ih (hlinks.tail.of_eq (Property.listNodes_eq _)))
  | function _ ih => exact .function (ih hlinks.tail)
  | «class» _ ih => exact .class (ih hlinks.tail)
  | paren _ ih => exact .paren (ih hlinks.tail)
  | dot _ hobject hname ih => exact .dot (ih hlinks.tail) hobject.toFactory hname
  | index _ hobject _ ih ih' =>
    exact .index (ih hlinks.tail.left) hobject.toFactory (ih' hlinks.tail.right)
  | @call _ sp callee args _ hobject _ ih ih' =>
    refine .call (ih hlinks.tail.left) hobject.toFactory
      (formed_linkedArgs (ih' (hlinks.tail.right.of_eq (Expr.listNodes_eq _))) ?_)
    rw [← Node.specifier_call sp]
    exact hlinks.head.id
  | tagged _ hobject hquasi ih => exact .tagged (ih hlinks.tail) hobject.toFactory hquasi
  | new _ h _ ih ih' =>
    exact .new (ih hlinks.tail.left) ((constructs_toFactory path _).trans h)
      (ih' (hlinks.tail.right.of_eq (Expr.listNodes_eq _)))
  | newBare _ h ih =>
    refine .newBare (ih hlinks.tail) ?_
    rwa [constructs_toFactory, isNewBare_toFactory]
  | unary _ h ih => exact .unary (ih hlinks.tail) (level_le_toFactory h)
  | await hasync _ h ih => exact .await hasync (ih hlinks.tail) (level_le_toFactory h)
  | leading _ h ih => exact .leading (ih hlinks.tail) (level_le_toFactory h)
  | trailing _ h ih => exact .trailing (ih hlinks.tail) ((Expr.level_toFactory path _).trans h)
  | binary _ h hop _ h' ih ih' =>
    exact .binary (ih hlinks.tail.left) (level_le_toFactory h) hop
      (ih' hlinks.tail.right) (level_le_toFactory h')
  | conditional _ h _ h' _ h'' ih ih' ih'' =>
    exact .conditional (ih hlinks.tail.left.left) (level_le_toFactory h)
      (ih' hlinks.tail.left.right) (level_le_toFactory h') (ih'' hlinks.tail.right)
      (level_le_toFactory h'')
  | assign _ h _ h' ih ih' =>
    exact .assign (ih hlinks.tail.left) ((isAssignable_toFactory path _).trans h)
      (ih' hlinks.tail.right) (level_le_toFactory h')
  | assignPattern _ h _ h' ih ih' =>
    exact .assignPattern (ih hlinks.tail.left)
      ((isPattern_toFactory path _).trans h) (ih' hlinks.tail.right) (level_le_toFactory h')
  | arrow _ hlead _ h ih ih' =>
    exact .arrow (ih hlinks.tail.left)
      (fun hbrace => hlead ((exprLead_toFactory path _).symm.trans hbrace))
      (ih' hlinks.tail.right) (level_le_toFactory h)
  | arrowBlock _ _ ih ih' => exact .arrowBlock (ih hlinks.tail.left) (ih' hlinks.tail.right)
  | yieldValue hgenerator _ h ih =>
    exact .yieldValue hgenerator (ih hlinks.tail) (level_le_toFactory h)
  | sequence _ h _ ih ih' =>
    exact .sequence (ih hlinks.tail.left) (level_le_toFactory h) (ih' hlinks.tail.right)
  | other _ h ih => exact .other (ih hlinks.left) (level_le_toFactory h)
  | moreOthers _ h _ ih ih' =>
    exact .moreOthers (ih hlinks.left) (level_le_toFactory h) (ih' hlinks.right)
  | @noItems _ c =>
    rw [Phrase.toFactory, itemsToFactory_nil]
    exact .noItems
  | @hole _ c _ xs hhole _ ih =>
    rw [Phrase.toFactory, itemsToFactory_cons, itemToFactory_hole path hhole]
    exact .hole hhole (ih hlinks.right)
  | moreItems _ _ ih ih' =>
    rw [Phrase.toFactory, itemsToFactory_cons]
    exact .moreItems (ih hlinks.left) (ih' hlinks.right)
  | spreadArg _ h ih => exact .spreadArg (ih hlinks.tail) (level_le_toFactory h)
  | plainArg _ h ih => exact .plainArg (ih hlinks) (level_le_toFactory h)
  | element _ ih => exact .element (ih hlinks)
  | spreadProperty _ h ih => exact .spreadProperty (ih hlinks) (level_le_toFactory h)
  | methodProperty h _ _ ih ih' => exact .methodProperty h (ih hlinks.left) (ih' hlinks.right)
  | pair _ _ h ih ih' =>
    exact .pair (ih hlinks.left) (ih' hlinks.right) (level_le_toFactory h)
  | arrayRest _ ih => exact .arrayRest (ih hlinks)
  | arrayItem _ _ ih ih' => exact .arrayItem (ih hlinks.left) (ih' hlinks.right)
  | objectPair _ _ _ ih ih' ih'' =>
    exact .objectPair (ih hlinks.left.left) (ih' hlinks.left.right) (ih'' hlinks.right)
  | objectShort h _ ih => exact .objectShort h (ih hlinks)
  | restParam _ ih => exact .restParam (ih hlinks)
  | plainParam _ _ ih ih' => exact .plainParam (ih hlinks.left) (ih' hlinks.right)
  | keyComputed _ h ih => exact .keyComputed (ih hlinks) (level_le_toFactory h)
  | boundArray _ ih => exact .boundArray (ih (hlinks.of_eq (ArrayElement.listNodes_eq _)))
  | boundObject _ ih =>
    exact .boundObject (ih (hlinks.of_eq (ObjectElement.listNodes_eq _)))
  | value _ h ih => exact .value (ih hlinks) (level_le_toFactory h)
  | func _ ih => exact .func (ih hlinks)
  | funcRest h _ ih => exact .funcRest h (ih hlinks)
  | callable _ _ ih ih' =>
    exact .callable (ih (hlinks.left.of_eq (Param.listNodes_eq _))) (ih' hlinks.right)
  | arrowHead _ ih => exact .arrowHead (ih (hlinks.of_eq (Param.listNodes_eq _)))
  | classRest h _ _ ih ih' => exact .classRest h (ih hlinks.left) (ih' hlinks.right)
  | parent _ h ih => exact .parent (ih hlinks) ((Expr.level_toFactory path _).trans h)
  | moreMembers _ _ ih ih' => exact .moreMembers (ih hlinks.left) (ih' hlinks.right)
  | method h _ _ ih ih' => exact .method h (ih hlinks.left) (ih' hlinks.right)
  | field _ _ ih ih' => exact .field (ih hlinks.left) (ih' hlinks.right)
  | block _ ih => exact .block (ih hlinks)
  | moreStmts _ _ ih ih' => exact (ih hlinks.left).restop.stmts_append (ih' hlinks.right)
  | condition _ ih => exact .condition (ih hlinks)
  | given _ ih => exact .given (ih hlinks)
  | lastDecl _ ih => exact .lastDecl (ih hlinks.left)
  | moreDecls _ _ ih ih' => exact .moreDecls (ih hlinks.left) (ih' hlinks.right)
  | decl _ _ ih ih' => exact .decl (ih hlinks.left) (ih' hlinks.right)
  | labeled h _ ih => exact .single (.labeled h (ih hlinks.tail).oneStatement)
  | exprStmt hlead _ ih =>
    exact .single (.exprStmt ((exprLead_toFactory path _).trans hlead) (ih hlinks.tail))
  | blockStmt _ ih => exact .single (.blockStmt (ih hlinks.tail))
  | empty => exact .single .empty
  | throw _ ih => exact .single (.throw (ih hlinks.tail))
  | «switch» _ _ ih ih' => exact .single (.switch (ih hlinks.tail.left) (ih' hlinks.tail.right))
  | moreCases _ _ ih ih' => exact .moreCases (ih hlinks.left) (ih' hlinks.right)
  | testCase _ _ ih ih' => exact .testCase (ih hlinks.left) (ih' hlinks.right)
  | defaultCase _ ih => exact .defaultCase (ih hlinks.right)
  | tryCatch _ _ ih ih' =>
    exact .single (.tryCatch (ih hlinks.tail.left.left)
      (ih' (hlinks.tail.left.right.append hlinks.tail.right)))
  | tryFinally _ _ ih ih' =>
    exact .single (.tryFinally (ih hlinks.tail.left) (ih' hlinks.tail.right))
  | tryCatchFinally _ _ _ ih ih' ih'' =>
    exact .single (.tryCatchFinally (ih hlinks.tail.left.left.left)
      (ih' (hlinks.tail.left.left.right.append hlinks.tail.left.right))
      (ih'' hlinks.tail.right))
  | handler _ _ ih ih' => exact .handler (ih hlinks.left) (ih' hlinks.right)
  | bareHandler _ ih => exact .bareHandler (ih hlinks.right)
  | vars _ ih => exact .single (.vars (ih hlinks.tail))
  | classDecl h _ ih => exact .single (.classDecl h (ih hlinks.tail))
  | functionDecl h _ ih =>
    exact .single (.functionDecl (by rwa [Func.name_toFactory]) (ih hlinks.tail))
  | doWhile _ _ ih ih' =>
    exact .single (.doWhile (ih hlinks.tail.left).oneStatement (ih' hlinks.tail.right))
  | whileLoop _ _ ih ih' =>
    exact .single (.whileLoop (ih hlinks.tail.left) (ih' hlinks.tail.right).oneStatement)
  | ifElse _ _ hopen _ ih ih' ih'' =>
    exact .single (.ifElse (ih hlinks.tail.left.left)
      (ih' hlinks.tail.left.right).oneStatement ((endsOpen_toFactory path _ _).trans hopen)
      (ih'' hlinks.tail.right).oneStatement)
  | ifThen _ _ ih ih' =>
    exact .single (.ifThen (ih hlinks.tail.left) (ih' hlinks.tail.right).oneStatement)
  | forIn _ _ _ ih ih' ih'' =>
    exact .single (.forIn (ih hlinks.tail.left.left) (ih' hlinks.tail.left.right)
      (ih'' hlinks.tail.right).oneStatement)
  | forOf _ _ h _ ih ih' ih'' =>
    exact .single (.forOf (ih hlinks.tail.left.left) (ih' hlinks.tail.left.right)
      (level_le_toFactory h) (ih'' hlinks.tail.right).oneStatement)
  | leftVars _ ih => exact .leftVars (ih hlinks.left.left)
  | leftPattern _ ih => exact .leftPattern (ih hlinks)
  | forLoop _ _ _ _ ih ih' ih'' ih₃ =>
    exact .single (.forLoop (ih hlinks.tail.left.left.left)
      (ih' hlinks.tail.left.left.right) (ih'' hlinks.tail.left.right)
      (ih₃ hlinks.tail.right).oneStatement)
  | initVars _ ih => exact .initVars (ih hlinks)
  | initExpr _ ih => exact .initExpr (ih hlinks)
  | ret _ ih => exact .single (.ret (ih hlinks.tail))
  | breakTo h => exact .single (.breakTo h)
  | continueTo h => exact .single (.continueTo h)
  | debugger => exact .single .debugger
  | importFrom hclause _ _ =>
    exact formed_importedVariables (hlinks.head.id _ rfl) hclause.isString_key
      (List.forall_mem_map.mp hlinks.head.locals)
  | exportDefault _ ih => exact formed_exportedDefault (ih hlinks.tail)
  | exportedFunc _ ih => exact .exportedFunc (ih hlinks.tail)
  | exportedClass _ ih => exact .exportedClass (ih hlinks.tail)
  | exportedValue hlead _ h ih =>
    refine .exportedValue ?_ (ih hlinks) (level_le_toFactory h)
    rwa [exprLead_toFactory]
  | exportAll => exact formed_exportedAll (hlinks.head.id _ rfl)
  | exportNamed h _ _ =>
    refine formed_exportedNames h hlinks.head.id ?_
    rintro rfl
    exact List.forall_mem_map.mp hlinks.head.locals
  | @exportDecl _ _ d hdecl ih =>
    have hnode : Linkable T path (.stmt (.decl d)) := ⟨nofun, nofun⟩
    have hnames := hdecl.isVariable_declared
    exact (ih (hlinks.tail.cons hnode)).stmts_append (formed_writes
      (fun name h => (hnames name h).isName)
      fun name h => ⟨formed_ident (hnames name h), assignment_le_closed⟩)

end

theorem formed_moduleRecord [T.Makes] {hasExports : Bool} :
    Formed T (.expr cx (moduleRecord hasExports)) := by
  have hkey : ∀ name ∈ ["exports", "es6", "hasES6Exports"],
      Formed T (.key cx.allowIn (.ident name)) :=
    fun name h => .keyName (Texts.isName_made (by revert name; decide))
  exact .object (.moreItems (.pair (hkey _ (by decide)) (.object .noItems) assignment_le_closed)
    (.moreItems (.pair (hkey _ (by decide)) (.object .noItems) assignment_le_closed)
      (.moreItems (.pair (hkey _ (by decide)) .bool assignment_le_closed) .noItems)))

theorem formed_factory [T.Makes] {hasExports : Bool} (hid : T.IsName (ModulePath.id path))
    (h : Formed T (.stmts .top [] body)) :
    Formed T (.stmt .top (factory path hasExports body)) := by
  have hrecord : Formed T (.stmt .top (.decl (.vars .nowhere .var
      [Make.declarator .nowhere "module" (moduleRecord hasExports)]))) :=
    .vars (.lastDecl (.decl (.bound (Texts.isVariable_made (by decide)))
      (.value formed_moduleRecord assignment_le_closed)))
  have hresult : Formed T (.stmt .top (.ret .nowhere (some (Make.ident "module")))) :=
    .ret (.given (formed_made (by decide)))
  have hbody : Formed T (.block .top _) :=
    .block (.moreStmts hrecord (h.restop.stmts_append hresult.single))
  exact .exprStmt rfl (.assign (formed_dot (formed_made (by decide)) ⟨rfl, rfl⟩ hid) rfl
    (.function (.func (.funcRest nofun (.callable .noItems hbody)))) assignment_le_closed)

end Grammar

namespace Program

open Grammar

theorem formed_toFactory [T.Makes] {p : Program} (h : Formed T (.stmts .top [] p))
    (hid : T.IsName (ModulePath.id path)) (hids : ∀ m ∈ p.imports path, T.IsName (ModulePath.id m))
    (hlocals : ∀ n ∈ p.nodes, ∀ name ∈ n.locals, T.IsVariable name) :
    Formed T (.stmts .top [] (p.toFactory path)) :=
  have hlinkable : AllLinkable T path p.nodes := by
    refine fun n hn => ⟨fun raw hraw => hids _ (List.mem_map_of_mem ?_), hlocals n hn⟩
    rw [p.sources_perm_specifiers.mem_iff]
    exact List.mem_filterMap.mpr ⟨n, hn, hraw⟩
  (formed_factory hid (h.toFactory hlinkable)).single

end Program

namespace LoadedModule

open Grammar

/-- The code of a module is one statement that enters a function into the table
of factories. -/
theorem ofText_reads_back {path text : String} {p : Program} {m : LoadedModule}
    (hm : ofText path text = .ok m) (hp : Program.ofSource text = .ok p)
    (hregex : ∀ n ∈ p.nodes, n.isRegex = false) (hid : IsName (ModulePath.id path))
    (hids : ∀ m' ∈ m.imports, IsName (ModulePath.id m'))
    (hlocals : ∀ n ∈ p.nodes, ∀ name ∈ n.locals, IsVariable name) :
    ∃ (f : Func) (sp₁ sp₂ sp₃ sp₄ sp₅ sp₆ : Span), Program.ofSource m.code = .ok
      [.expr sp₁ (.assign sp₂ .assign
        (.dot sp₃ (.ident sp₄ "moduleFns") sp₅ (ModulePath.id path))
        (.function sp₆ f))] := by
  obtain rfl : m = ⟨(p.toFactory path).print, p.imports path⟩ := by
    rw [ofText, hp] at hm
    exact (Except.ok.inj hm).symm
  have hformed := Program.formed_toFactory (Program.formed_of_ofSource hp hregex) hid hids hlocals
  obtain ⟨q, hq, hbare⟩ := Program.ofSource_print hformed
  obtain ⟨s, rfl, hs⟩ := Stmt.single_of_listBare hbare
  obtain ⟨sp₁, e, rfl, he⟩ := Stmt.expr_of_bare hs
  obtain ⟨sp₂, target, value, rfl, htarget, hvalue⟩ := Expr.assign_of_bare he
  obtain ⟨sp₃, object, sp₅, rfl, hobject⟩ := Expr.dot_of_bare htarget
  obtain ⟨sp₄, rfl⟩ := Expr.ident_of_bare hobject
  obtain ⟨sp₆, f, rfl⟩ := Expr.function_of_bare hvalue
  exact ⟨f, sp₁, sp₂, sp₃, sp₄, sp₅, sp₆, hq⟩

theorem exists_not_reads_back {source code : String}
    (hrun : (Program.ofSource source).toOption.any (fun p =>
      decide (∀ n ∈ p.nodes, n.isRegex = false) && (p.toFactory "index.js").print == code) = true)
    (hcode : (Program.ofSource code).isOk = false) :
    ∃ (p : Program) (m : LoadedModule), ofText "index.js" source = .ok m ∧
      Program.ofSource source = .ok p ∧ (∀ n ∈ p.nodes, n.isRegex = false) ∧
      Worded .identifier (ModulePath.id "index.js") ∧ ∀ q, Program.ofSource m.code ≠ .ok q := by
  obtain ⟨p, hp, hrun⟩ := exists_ok_of_any hrun
  rw [Bool.and_eq_true, decide_eq_true_eq, beq_iff_eq] at hrun
  refine ⟨p, ⟨_, p.imports "index.js"⟩, by rw [ofText, hp], hp, hrun.1, by decide +kernel, ?_⟩
  intro q hq
  change Program.ofSource (p.toFactory "index.js").print = .ok q at hq
  rw [hrun.2] at hq
  rw [hq] at hcode
  cases hcode

/-- A module whose id starts with a digit cannot be named behind a point. -/
theorem ofText_reads_back_not_digit :
    ∃ (p : Program) (m : LoadedModule), ofText "index.js" "require('./1')" = .ok m ∧
      Program.ofSource "require('./1')" = .ok p ∧ (∀ n ∈ p.nodes, n.isRegex = false) ∧
      Worded .identifier (ModulePath.id "index.js") ∧ ∀ q, Program.ofSource m.code ≠ .ok q := by
  have hrun : (Program.ofSource "require('./1')").toOption.any (fun p =>
      decide (∀ n ∈ p.nodes, n.isRegex = false) && (p.toFactory "index.js").print ==
        "moduleFns.index_js=function()\x7bvar module=\x7bexports:\x7b\x7d,es6:\x7b\x7d," ++
          "hasES6Exports:false\x7d;require(modules.1_js);return module;\x7d;") = true := by
    decide +kernel
  exact exists_not_reads_back hrun (by decide +kernel)

/-- An import of the default export. -/
theorem ofText_reads_back_default :
    ∃ (m : LoadedModule) (f : Func) (sp₁ sp₂ sp₃ sp₄ sp₅ sp₆ : Span),
      ofText "index.js" "import a from './m'" = .ok m ∧
      Program.ofSource m.code = .ok [.expr sp₁ (.assign sp₂ .assign
        (.dot sp₃ (.ident sp₄ "moduleFns") sp₅ "index_js") (.function sp₆ f))] := by
  have hrun : (Program.ofSource "import a from './m'").toOption.any (fun p =>
      decide (∀ n ∈ p.nodes, n.isRegex = false) && p.imports "index.js" == ["m.js"] &&
        decide (∀ n ∈ p.nodes, ∀ name ∈ n.locals, name = "a")) = true := by decide +kernel
  obtain ⟨p, hp, hrun⟩ := exists_ok_of_any hrun
  rw [Bool.and_eq_true, Bool.and_eq_true, decide_eq_true_eq, decide_eq_true_eq,
    beq_iff_eq] at hrun
  obtain ⟨⟨hregex, himports⟩, hlocals⟩ := hrun
  have hid : ModulePath.id "index.js" = "index_js" := by decide +kernel
  have hname : IsName "index_js" ∧ IsName (ModulePath.id "m.js") ∧ IsVariable "a" := by
    decide +kernel
  have hm : ofText "index.js" "import a from './m'" =
      .ok ⟨(p.toFactory "index.js").print, p.imports "index.js"⟩ := by rw [ofText, hp]
  obtain ⟨f, sp₁, sp₂, sp₃, sp₄, sp₅, sp₆, hcode⟩ :=
    ofText_reads_back hm hp hregex (hid ▸ hname.1)
      (by rw [himports]; exact List.forall_mem_singleton.mpr hname.2.1)
      (fun n hn name h => hlocals n hn name h ▸ hname.2.2)
  exact ⟨_, f, sp₁, sp₂, sp₃, sp₄, sp₅, sp₆, hm, hid ▸ hcode⟩

end LoadedModule
end ScriptBundler
