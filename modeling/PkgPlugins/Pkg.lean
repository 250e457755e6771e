/-
What the plugins use of libpkg: error codes, the types of jobs, what is solved for
a package, and the hooks.
-/
import Mathlib.Logic.Basic

set_option autoImplicit false

namespace PkgPlugins.Pkg

inductive pkg_error_t
  | EPKG_OK
  | EPKG_ENODB
  | EPKG_FATAL
deriving DecidableEq, Repr

inductive pkg_jobs_t
  | PKG_JOBS_INSTALL
  | PKG_JOBS_DEINSTALL
  | PKG_JOBS_FETCH
  | PKG_JOBS_AUTOREMOVE
  | PKG_JOBS_UPGRADE
deriving DecidableEq, Repr

inductive pkg_solved_t
  | PKG_SOLVED_INSTALL
  | PKG_SOLVED_DELETE
  | PKG_SOLVED_UPGRADE
  | PKG_SOLVED_UPGRADE_REMOVE
  | PKG_SOLVED_FETCH
  | PKG_SOLVED_UPGRADE_INSTALL
deriving DecidableEq, Repr

inductive pkg_plugin_hook_t
  | PKG_PLUGIN_HOOK_PRE_INSTALL
  | PKG_PLUGIN_HOOK_POST_INSTALL
  | PKG_PLUGIN_HOOK_PRE_DEINSTALL
  | PKG_PLUGIN_HOOK_POST_DEINSTALL
  | PKG_PLUGIN_HOOK_PRE_UPGRADE
  | PKG_PLUGIN_HOOK_POST_UPGRADE
  | PKG_PLUGIN_HOOK_PRE_AUTOREMOVE
  | PKG_PLUGIN_HOOK_POST_AUTOREMOVE
deriving DecidableEq, Repr

/-- The type of the jobs that a hook is run for. -/
def pkg_plugin_hook_t.jobs : pkg_plugin_hook_t → pkg_jobs_t
  | .PKG_PLUGIN_HOOK_PRE_INSTALL | .PKG_PLUGIN_HOOK_POST_INSTALL => .PKG_JOBS_INSTALL
  | .PKG_PLUGIN_HOOK_PRE_DEINSTALL | .PKG_PLUGIN_HOOK_POST_DEINSTALL => .PKG_JOBS_DEINSTALL
  | .PKG_PLUGIN_HOOK_PRE_UPGRADE | .PKG_PLUGIN_HOOK_POST_UPGRADE => .PKG_JOBS_UPGRADE
  | .PKG_PLUGIN_HOOK_PRE_AUTOREMOVE | .PKG_PLUGIN_HOOK_POST_AUTOREMOVE => .PKG_JOBS_AUTOREMOVE

end PkgPlugins.Pkg
