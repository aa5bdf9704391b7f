import WebserverEthercat.Form.LongPairs

/-!
# Storing through the pointer

`parse_key_value_festo_motor` stores through `festo_motor_outputs_ptr`, which is
null before `main` has assigned it.  Nothing is stored for an unknown key, so a
body without the eight keys does no harm then.
-/

set_option autoImplicit false

namespace WebserverEthercat.Form

open CString

end WebserverEthercat.Form
