namespace Chip8.Text

def application (name : String) (parts : List String) : String :=
  name ++ "(" ++ ", ".intercalate parts ++ ")"

def labelled (name : String) (fields : List (String × Nat)) : String :=
  name ++ " \x7b " ++ ", ".intercalate (fields.map fun (label, n) => label ++ ": " ++ n.repr)
    ++ " \x7d"

end Chip8.Text
