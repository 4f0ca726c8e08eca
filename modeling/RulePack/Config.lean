import RulePack.Comment
import RulePack.Failure
import RulePack.Json.Reader
import RulePack.PluginList

/-!
# Configurations

A configuration is a JSON object in a file; the plugins that it names are its member `plugins`.  The
other members are none of this library's business and are kept as they are.

* `Config`: a configuration and its path;
* `Config.parse`: the configuration that a text is, comments allowed;
* `Config.initial`: the configuration that is written where there is none;
* `Config.plugins`, `Config.merge`: the plugins, and the configuration with more of them;
* `Config.text`: the configuration as a text.
-/

namespace RulePack

/-- A configuration: the members of its object, and where it lies. -/
structure Config where
  path : Path
  members : Json.Members

namespace Config

/-- The names of configuration files, the preferred one first. -/
def fileNames : List String := ["biome.json", "biome.jsonc"]

/-- The path of a configuration that is yet to be written. -/
def defaultPath (projectRoot : Path) : Path := projectRoot.child "biome.json"

/-- The texts of an array of plugins, or what is wrong with it. -/
def entries : List Json → Except String (List String)
  | [] => .ok []
  | .string s :: rest => (entries rest).map (s :: ·)
  | v :: _ => .error ("plugins entries must be strings, found " ++ v.kind)

/-- The plugins among the members of a configuration.  Without that member, or where it is null,
there are none. -/
def pluginsOf (members : Json.Members) : Except String (List String) :=
  match members.get? PluginList.field with
  | none | some .null => .ok []
  | some (.array vs) => entries vs
  | some v => .error ("plugins must be an array, found " ++ v.kind)

/-- The plugins of a configuration. -/
def plugins (c : Config) : Except Failure (List String) :=
  (pluginsOf c.members).mapError (.badConfig c.path)

/-- The members of the object that a text is, or what is wrong with the text. -/
def parseMembers (text : String) : Except String Json.Members :=
  match Json.read (Comment.strip text) with
  | .error refusal => .error refusal.message
  | .ok (.object members) => (pluginsOf members).map (fun _ => members)
  | .ok v => .error ("expected a JSON object at the top level, found " ++ v.kind)

/-- The configuration that a text is. -/
def parse (path : Path) (text : String) : Except Failure Config :=
  match parseMembers text with
  | .ok members => .ok ⟨path, members⟩
  | .error problem => .error (.badConfig path problem)

/-- The address of the schema that a new configuration refers to. -/
def schema : String := "https://biomejs.dev/schemas/2.0.0/schema.json"

/-- The configuration that is written where there is none. -/
def initial (path : Path) (plugins : List String) : Config :=
  { path
    members :=
      [("$schema", .string schema),
        (PluginList.field, Json.strings plugins),
        ("linter", .object [("enabled", .bool true),
          ("rules", .object [("recommended", .bool true)])])] }

/-- The configuration with its plugins replaced. -/
def withPlugins (c : Config) (plugins : List String) : Config :=
  { c with members := c.members.insert PluginList.field (Json.strings plugins) }

/-- The configuration with more plugins, and those that it did not have. -/
def merge (c : Config) (more : List String) : Except Failure (Config × List String) :=
  match c.plugins with
  | .error failure => .error failure
  | .ok existing =>
    let merged := PluginList.merge existing more
    .ok (c.withPlugins merged, PluginList.missing existing merged)

/-- The configuration as a text. -/
def text (c : Config) : String := (Json.object c.members).render ++ "\n"

end Config

end RulePack
