/-
  SolidTree.Command.Help
  ──────────────────────
  **HELP ON COMMANDS.**

  The text for each topic: what the command is for, how it is called, and
  its arguments and options in two columns.
-/
import SolidTree.Command.Request

namespace SolidTree.Topic

/-- Rows of two columns under a heading. -/
def table (heading : String) (rows : List (String × String)) : String :=
  let width := rows.foldl (fun width (row, _) => max width row.length) 0
  let line (row : String × String) : String :=
    "  " ++ row.1 ++ String.ofList (List.replicate (width - row.1.length) ' ') ++ "  " ++ row.2
      ++ "\n"
  "\n" ++ heading ++ ":\n" ++ String.join (rows.map line)

/-- Options of every command. -/
def commonRows : List (String × String) :=
  [("-v, --verbose", "Verbose output"), ("-h, --help", "Print help")]

/-- The one argument of a command that reads a tree. -/
def inputRows : List (String × String) := [("<INPUT>", "Input tree file (JSON)")]

/-- What a topic is about, in one line. -/
def about : Topic → String
  | .all => "polyscad - OpenSCAD source generation with exact bounding boxes"
  | .render => "Render a serialized model tree to OpenSCAD source"
  | .bbox => "Print the bounding box of a serialized model tree"
  | .solve => "Solve an axis span from two of its parameters"
  | .version => "Show version information"
  | .help => "Print this message or the help of the given subcommand(s)"

/-- How the command is called. -/
def usage : Topic → String
  | .all => "Usage: polyscad [OPTIONS] <COMMAND>\n"
  | .render => "Usage: polyscad render [OPTIONS] <INPUT>\n"
  | .bbox => "Usage: polyscad bbox [OPTIONS] <INPUT>\n"
  | .solve => "Usage: polyscad solve [OPTIONS]\n"
  | .version => "Usage: polyscad version [OPTIONS]\n"
  | .help => "Usage: polyscad help [COMMAND]...\n"

/-- The arguments and options of the command. -/
def sections : Topic → String
  | .all =>
    table "Commands"
        [("render", about .render), ("bbox", about .bbox), ("solve", about .solve),
          ("version", about .version), ("help", about .help)]
      ++ table "Options" commonRows
  | .render =>
    table "Arguments" inputRows
      ++ table "Options"
        ([("-o, --output <OUTPUT>", "Output .scad file; prints to stdout when omitted"),
          ("    --save", "Write to the configured output directory"),
          ("-c, --config <CONFIG>", "Configuration file")] ++ commonRows)
  | .bbox => table "Arguments" inputRows ++ table "Options" commonRows
  | .solve =>
    table "Options"
      ([("    --from <FROM>", ""), ("    --center <CENTER>", ""), ("    --to <TO>", ""),
        ("    --distance <DISTANCE>", "")] ++ commonRows)
  | .version => table "Options" commonRows
  | .help => table "Arguments" [("[COMMAND]...", "Print help for the subcommand(s)")]

/-- The help on a topic. -/
def text (t : Topic) : String := t.about ++ "\n\n" ++ t.usage ++ t.sections

end SolidTree.Topic
