namespace HtmlIds

/-- Of `size` places from `first` on, the last whose number is not above `value`; it is `first` if
there is none. Each round keeps the half that begins with such a number. -/
def narrow (numbers : Array Nat) (value first size : Nat) : Nat :=
  if size ≤ 1 then first
  else
    let middle := first + size / 2
    if value < numbers.getD middle 0 then narrow numbers value first (size - size / 2)
    else narrow numbers value middle (size - size / 2)
termination_by size

def search (numbers : Array Nat) (value : Nat) : Except Nat Nat :=
  let place := narrow numbers value 0 numbers.size
  match numbers[place]? with
  | none => .error 0
  | some number =>
    if number = value then .ok place
    else .error (if number < value then place + 1 else place)

end HtmlIds
