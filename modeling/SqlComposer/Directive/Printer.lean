import SqlComposer.Directive.Basic

/-! Writing directives as a block. -/
namespace SqlComposer

/-- What a character becomes between quotation marks. -/
def escape : Char → List Char
  | '"' => ['\\', '"']
  | '\\' => ['\\', '\\']
  | '\n' => ['\\', 'n']
  | '\r' => ['\\', 'r']
  | '\t' => ['\\', 't']
  | c => [c]

def quote (text : String) : String :=
  String.ofList ('"' :: (text.toList.flatMap escape ++ ['"']))

def Entry.print : Entry → String
  | .keyword key value => s!"\t- {key}: " ++ quote value ++ "\n"
  | .reference ⟨key, .named name⟩ => s!"\t- {key}: sqlmref(" ++ quote name ++ ")\n"
  | .reference ⟨key, .file path⟩ => s!"\t- {key}: sqlmfile(" ++ quote path ++ ")\n"

/-- The section of one environment; none if there is nothing to say. -/
def Block.print (e : Environment) (b : Block) : String :=
  if b.isEmpty then "" else s!"[{e.name}]\n" ++ String.join (b.entries.map Entry.print)

/-- The directives as a comment to be put on top of a script. Their name is left out. -/
def Directives.print (d : Directives) : String :=
  "/*\n[sqlmbegin]\n[script]\n\t- description: " ++ quote d.description ++ "\n" ++
    String.join (Environment.all.map fun e => (d.block e).print e) ++
    "[sqlmend]\n*/\n"

end SqlComposer
