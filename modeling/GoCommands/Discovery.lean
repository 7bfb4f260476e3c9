import GoCommands.Walk
import GoCommands.Package.Assembly

/-!
# Discovery

Walks a tree and builds the model of each tagged directory.
-/

namespace GoCommands

def defaultBuildTag : Text := "gantry".toList

structure DiscoverOptions where
  startDir : Path
  walk : WalkOptions
deriving DecidableEq, Repr

namespace DiscoverOptions

def standard : DiscoverOptions := ⟨['.'], ⟨defaultBuildTag, false, true⟩⟩

end DiscoverOptions

/-- Builds models up to the first failure. -/
def buildAll : List TaggedDir → Except DiscoverError (List PackageModel)
  | [] => .ok []
  | d :: rest => do
    let model ← PackageScan.build d.path d.files
    .ok (model :: (← buildAll rest))

/-- The models of the tagged directories in the order of the walk, which visits at most `fuel`
directories. -/
def discover (fuel : Nat) (fs : FileSystem) (options : DiscoverOptions) :
    Option (Except DiscoverError (List PackageModel)) :=
  (walk fuel fs options.startDir options.walk).map fun found => found.bind buildAll

end GoCommands
