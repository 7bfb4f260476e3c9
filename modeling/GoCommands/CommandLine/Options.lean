import GoCommands.CommandLine.Arguments
import GoCommands.Discovery
import GoCommands.Settings
import GoCommands.Wrapper.Generate

/-!
# Options of a run

The command line wins over the settings of the project, and these over the values that hold where
nothing is given.
-/

namespace GoCommands

namespace DiscoverOptions

/-- Options of a discovery.  Flags only switch on. -/
def ofSettings (root : Option Path) (multiPackage includeHidden : Bool) (tag : Option Text)
    (s : Settings) : DiscoverOptions where
  startDir := (root.or s.root).getD standard.startDir
  walk :=
    { buildTag := (tag.or s.tag).getD standard.walk.buildTag
      multiPackage := multiPackage || s.multiPackage.getD standard.walk.multiPackage
      skipHidden := !includeHidden && s.skipHidden.getD standard.walk.skipHidden }

end DiscoverOptions

namespace GenerateOptions

/-- Options of a generation, which takes place where a discovery starts if no directory is given. -/
def ofSettings (dir : Option Path) (onlyTagged noTag : Bool) (tag : Option Text) (s : Settings) :
    GenerateOptions where
  dir := ((dir.or s.generate.dir).or s.root).getD ['.']
  buildTag := if noTag then none else some ((tag.or s.tag).getD defaultBuildTag)
  onlyTagged := onlyTagged || s.generate.onlyTagged.getD false

end GenerateOptions

end GoCommands
