namespace PlcLang.Text

/-- Every line end becomes a single line feed, whether written as one, as a carriage return, or as
both. -/
def unifyLineEnds : List Char → List Char
  | [] => []
  | '\r' :: '\n' :: rest => '\n' :: unifyLineEnds rest
  | '\r' :: rest => '\n' :: unifyLineEnds rest
  | c :: rest => c :: unifyLineEnds rest

end PlcLang.Text
