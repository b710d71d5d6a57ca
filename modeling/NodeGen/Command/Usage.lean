/-
  NodeGen.Command.Usage — the options of the command line, the help, and the words for misuse.
-/

import NodeGen.Source.Target
import NodeGen.Text.Quoted

namespace NodeGen.Command

inductive Flag where
  | help
  | grammar
  | lang
  | package
  | check
  deriving DecidableEq, Repr

namespace Flag

def all : List Flag := [.help, .grammar, .lang, .package, .check]

def long : Flag → Text
  | .help => "--help".toList
  | .grammar => "--grammar".toList
  | .lang => "--lang".toList
  | .package => "--package".toList
  | .check => "--check".toList

def display : Flag → Text
  | .help => "-h/--help".toList
  | flag => flag.long

end Flag

def shortHelp : Text := "-h".toList

def separator : Text := "--".toList

inductive Misuse where
  | ambiguous (argument : Text) (flags : List Flag)
  | ignoredValue (flag : Flag) (value : Text)
  | missingValue (flag : Flag)
  | unknownTarget (value : Text)
  | missingDirectory
  | unrecognized (arguments : List Text)
  deriving DecidableEq, Repr

def Misuse.message : Misuse → Text
  | .ambiguous argument flags =>
    "ambiguous option: ".toList ++ argument ++ " could match ".toList ++
      ", ".toList.intercalate (flags.map Flag.long)
  | .ignoredValue flag value =>
    "argument ".toList ++ flag.display ++ ": ignored explicit argument ".toList ++
      Text.Quoted.encode value
  | .missingValue flag => "argument ".toList ++ flag.display ++ ": expected one argument".toList
  | .unknownTarget value =>
    "argument ".toList ++ Flag.lang.display ++ ": invalid choice: ".toList ++
      Text.Quoted.encode value ++ " (choose from ".toList ++
      ", ".toList.intercalate (Target.all.map fun target => Text.Quoted.encode target.name) ++ [')']
  | .missingDirectory => "the following arguments are required: output_dir".toList
  | .unrecognized arguments => "unrecognized arguments: ".toList ++ [' '].intercalate arguments

def usageRows : List Text :=
  ["usage: generate_ast [-h] [--grammar GRAMMAR] [--lang \x7bjava,python\x7d]".toList,
    "                    [--package PACKAGE] [--check]".toList,
    "                    output_dir".toList]

def helpRows : List Text :=
  usageRows ++
    [[],
      "Generate visitor-based AST node classes from grammar tables".toList,
      [],
      "positional arguments:".toList,
      "  output_dir            Directory receiving <BaseName>.<ext>".toList,
      [],
      "options:".toList,
      "  -h, --help            show this help message and exit".toList,
      "  --grammar GRAMMAR     JSON file mapping base names to descriptor lists".toList,
      "  --lang \x7bjava,python\x7d  Target language".toList,
      "  --package PACKAGE     Java package for generated files".toList,
      "  --check               Check outputs are up to date".toList]

def helpText : Text := Text.rows helpRows ++ ['\n']

def Misuse.text (m : Misuse) : Text :=
  Text.rows (usageRows ++ ["generate_ast: error: ".toList ++ m.message]) ++ ['\n']

end NodeGen.Command
