import ScriptBundler.Table

/-!
# Project configuration

What is bundled, where the bundle goes, and what is done besides.
-/

namespace ScriptBundler

structure CacheConfig where
  enable : Bool
  dirName : String
deriving DecidableEq, Repr

structure ServerConfig where
  enable : Bool
  port : Nat
deriving DecidableEq, Repr

structure Config where
  /-- Path of the first file, from the root of the project. -/
  entry : String
  /-- The output directory. -/
  bundleDir : String
  /-- Template of a page that loads the bundle; empty for no page. -/
  templateHtml : String
  /-- Build again when a file changes. -/
  watchFiles : Bool
  permanentCache : CacheConfig
  devServer : ServerConfig
  /-- Variables that scripts can see. -/
  env : Table String
deriving DecidableEq, Repr

namespace Config

def default : Config where
  entry := "index.js"
  bundleDir := "build"
  templateHtml := ""
  watchFiles := false
  permanentCache := ⟨false, ".jsbundle-cache"⟩
  devServer := ⟨false, 8080⟩
  env := Table.empty.insert "NODE_ENV" "development"

/-- Whether two configurations say the same; the order of variables does not
matter. -/
def agrees (a b : Config) : Bool :=
  decide ({ a with env := Table.empty } = { b with env := Table.empty }) && a.env.agrees b.env

end Config
end ScriptBundler
