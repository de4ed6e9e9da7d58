import ScriptBundler.Bundle.Build

/-!
# Steps of a build

Every step of a build is described by what it gives and leaves in a workspace.
What all steps preserve, the whole build preserves.
-/

namespace ScriptBundler

variable {w w' : Workspace} {p : Project} {P : Workspace → Prop}

/-- A project with the default settings, but for its entry. -/
def Project.ofEntry (entry : String) : Project :=
  ⟨"", { Config.default with entry := entry }⟩

namespace Build

variable {α β : Type}

/-!
# One step

A step gives a value or errors, and leaves a workspace in both cases.
-/

theorem bind_apply (x : Build α) (f : α → Build β) (w : Workspace) :
    (x >>= f) w =
      match x w with
      | .ok a w₁ => f a w₁
      | .error errors w₁ => .error errors w₁ := by
  change EStateM.bind x f w = _
  unfold EStateM.bind
  cases x w with
  | ok a w₁ => rfl
  | error errors w₁ => rfl

theorem bind_eq_ok {x : Build α} {f : α → Build β} {b : β} (h : (x >>= f) w = .ok b w') :
    ∃ a w₁, x w = .ok a w₁ ∧ f a w₁ = .ok b w' := by
  rw [bind_apply] at h
  split at h
  · rename_i a w₁ hx
    exact ⟨a, w₁, hx, h⟩
  · cases h

theorem get_bind {f : Workspace → Build α} : (get >>= f) w = f w w :=
  rfl

theorem changeFiles_apply (change : Files → Files × Option FileError) (w : Workspace) :
    changeFiles change w =
      match change w.files with
      | (files, none) => .ok () { w with files := files }
      | (files, some e) => .error [.file e] { w with files := files } := by
  unfold changeFiles
  rw [get_bind]
  rcases change w.files with ⟨files, _ | e⟩
  · rfl
  · rfl

theorem crawl_apply (p : Project) (w : Workspace) :
    crawl p w =
      if (Crawl.run p w.files w.cache).errors.isEmpty then
        .ok (Crawl.run p w.files w.cache) ⟨(Crawl.run p w.files w.cache).files,
          (Crawl.run p w.files w.cache).cache, (Crawl.run p w.files w.cache).found⟩
      else
        .error (Crawl.run p w.files w.cache).errors ⟨(Crawl.run p w.files w.cache).files,
          (Crawl.run p w.files w.cache).cache, (Crawl.run p w.files w.cache).found⟩ := by
  unfold crawl
  rw [get_bind]
  generalize Crawl.run p w.files w.cache = c
  cases c.errors.isEmpty
  · rfl
  · rfl

theorem changeFiles_eq_ok {change : Files → Files × Option FileError}
    (h : changeFiles change w = .ok () w') : w' = { w with files := (change w.files).1 } := by
  rw [changeFiles_apply] at h
  rcases hchange : change w.files with ⟨files, _ | e⟩
  · rw [hchange] at h
    cases h
    rfl
  · rw [hchange] at h
    cases h

theorem crawl_eq_ok {c : Crawl} (h : crawl p w = .ok c w') :
    c = Crawl.run p w.files w.cache ∧ c.errors = [] := by
  rw [crawl_apply] at h
  generalize Crawl.run p w.files w.cache = last at h ⊢
  split at h
  · rename_i herrors
    cases h
    exact ⟨rfl, List.isEmpty_iff.mp herrors⟩
  · cases h

theorem writePage_apply (p : Project) (w : Workspace) :
    writePage p w =
      if p.config.templateHtml.isEmpty then .ok none w
      else
        match renderPage w.files (p.file p.config.templateHtml) "bundle.js" with
        | .error e => .error [e] w
        | .ok page =>
          (changeFiles (fun files => files.makeDirectories p.outDir) >>= fun _ =>
            writeFile (FilePath.join p.outDir "index.html") page >>= fun _ =>
              pure (some (FilePath.join p.outDir "index.html"))) w := by
  unfold writePage
  cases p.config.templateHtml.isEmpty with
  | true => rfl
  | false =>
    simp only [get_bind, Bool.false_eq_true, if_false]
    cases renderPage w.files (p.file p.config.templateHtml) "bundle.js" with
    | error e => rfl
    | ok page => rfl

theorem saveCache_apply (p : Project) (w : Workspace) :
    saveCache p w =
      if p.config.permanentCache.enable then
        .ok ((FileCache.save w.cache w.files (p.file p.config.permanentCache.dirName)).2.toList.map
            (fun e => "Cannot save cache: " ++ (BundleError.file e).message))
          { w with
            files := (FileCache.save w.cache w.files (p.file p.config.permanentCache.dirName)).1 }
      else .ok [] w := by
  unfold saveCache
  cases p.config.permanentCache.enable with
  | false => rfl
  | true =>
    simp only [get_bind, Bool.not_true, Bool.false_eq_true, if_false, if_true]
    rfl

def succeeds (r : EStateM.Result (List BundleError) Workspace α) (check : α → Bool) : Bool :=
  match r with
  | .ok a _ => check a
  | .error _ _ => false

theorem exists_ok_of_succeeds {r : EStateM.Result (List BundleError) Workspace α}
    {check : α → Bool} (h : succeeds r check = true) : ∃ a w, r = .ok a w ∧ check a = true := by
  cases r with
  | ok a w => exact ⟨a, w, rfl, h⟩
  | error => cases h

/-- The workspace that a step leaves, whether it succeeds or fails. -/
def left : EStateM.Result (List BundleError) Workspace α → Workspace
  | .ok _ w => w
  | .error _ w => w

def Preserves (P : Workspace → Prop) (x : Build α) : Prop :=
  ∀ w, P w → P (left (x w))

theorem Preserves.pure (a : α) : Preserves P (pure a : Build α) :=
  fun _ hw => hw

theorem Preserves.bind {x : Build α} {f : α → Build β} (hx : Preserves P x)
    (hf : ∀ a, Preserves P (f a)) : Preserves P (x >>= f) := by
  intro w hw
  have hfirst := hx w hw
  rw [bind_apply]
  cases hresult : x w with
  | ok a w₁ =>
    rw [hresult] at hfirst
    exact hf a w₁ hfirst
  | error errors w₁ =>
    rw [hresult] at hfirst
    exact hfirst

theorem Preserves.changeFiles {change : Files → Files × Option FileError}
    (h : ∀ w, P w → P { w with files := (change w.files).1 }) :
    Preserves P (changeFiles change) := by
  intro w hw
  have hchanged := h w hw
  rw [changeFiles_apply]
  rcases hresult : change w.files with ⟨files, _ | e⟩
  · rw [hresult] at hchanged
    exact hchanged
  · rw [hresult] at hchanged
    exact hchanged

theorem Preserves.writeFile
    (h : ∀ w path text files, P w → w.files.writeText path text = .ok files →
      P { w with files := files })
    (path text : String) : Preserves P (writeFile path text) := by
  refine Preserves.changeFiles ?_
  intro w hw
  cases hwrite : w.files.writeText path text with
  | ok files => exact h w path text files hw hwrite
  | error e => exact hw

theorem Preserves.writePage
    (hdirs : ∀ w, P w → P { w with files := (w.files.makeDirectories p.outDir).1 })
    (hwrite : ∀ w path text files, P w → w.files.writeText path text = .ok files →
      P { w with files := files }) :
    Preserves P (writePage p) := by
  intro w hw
  rw [writePage_apply]
  split
  · exact hw
  · split
    · exact hw
    · exact (Preserves.changeFiles hdirs).bind
        (fun _ => (Preserves.writeFile hwrite _ _).bind (fun _ => .pure _)) w hw

end Build

/-!
# The whole build

A build makes the output directory, crawls, and goes on with what it has found.
-/

namespace Project

open Build

def finish (p : Project) (c : Crawl) : Build BundleOutput := do
  let g := c.graph.link
  let code := Bundle.script g g.order.order ((g.positionOf? p.entryPath).getD 0) p.config.env
  writeFile (FilePath.join p.outDir "bundle.js") code
  let page ← writePage p
  let cacheWarnings ← saveCache p
  return {
    code := code
    outfile := FilePath.join p.outDir "bundle.js"
    modules := g.paths
    assets := c.assets
    page := page
    warnings := cycleWarnings g g.order.cyclic ++ cacheWarnings }

theorem build_eq (p : Project) :
    p.build = changeFiles (fun files => files.makeDirectories p.outDir) >>= fun _ =>
      crawl p >>= fun c => p.finish c :=
  rfl

theorem preserves_finish
    (hdirs : ∀ w, P w → P { w with files := (w.files.makeDirectories p.outDir).1 })
    (hwrite : ∀ w path text files, P w → w.files.writeText path text = .ok files →
      P { w with files := files })
    (hsave : ∀ w, P w → P { w with
      files := (FileCache.save w.cache w.files (p.file p.config.permanentCache.dirName)).1 })
    (c : Crawl) : Preserves P (p.finish c) := by
  have hsaved : Preserves P (saveCache p) := by
    intro w hw
    rw [saveCache_apply]
    split
    · exact hsave w hw
    · exact hw
  exact (Preserves.writeFile hwrite _ _).bind
    (fun _ => (Preserves.writePage hdirs hwrite).bind (fun _ => hsaved.bind (fun _ => .pure _)))

end Project
end ScriptBundler
